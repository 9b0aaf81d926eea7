import SyncBack.Services.AnalysisJobService

/-!
# The suggestion service

The operations of a review. Decisions change by conditional updates; the status of the document
changes in two ways, and the difference matters under concurrency:

* `finishReview` flushes the status that was computed from the loaded document;
* `reopenReview` compares and sets it, and only when the loaded document is `ready`.

The export between the decisions and `finishReview` is a parameter: it raises, or it stores the
file and commits the key of the file, in the transaction that is already open.

Source: `app/domain/services/suggestion_service.py`,
`app/domain/services/document_export_service.py`.
-/

namespace SyncBack

open Txn Session

/-- What `export_and_save` does: it raises before it writes, or it stores the exported file. -/
inductive ExportRun where
  | fails
  | saves
  deriving DecidableEq

/-- Source: `PatchFilter`. -/
inductive PatchFilter where
  | pending
  | decided
  | all
  deriving DecidableEq

/-- Source: `ReviewSaveResult`. -/
structure ReviewSaveResult where
  document : Loaded Document
  acceptedCount : ℕ
  rejectedCount : ℕ
  pendingCount : ℕ
  finalized : Bool

/-- Source: `PatchSuggestionsResult`. -/
structure PatchSuggestionsResult where
  document : Loaded Document
  updatedIds : List Uuid

namespace SuggestionService

/-! ## Helpers -/

/-- What a session has read in a document that it loaded. -/
def basisOf (document : Loaded Document) : Basis where
  currentJob := document.row.currentAnalysisJobId
  documentStatus := some document.row.status

/-- The count goes to the history variable only. Source: `SuggestionService._finish_review`. -/
def finishReview (document : Loaded Document) (pendingCount : ℕ) : Session (Loaded Document) := do
  let status ← documentTransition document.row.status .ready
  DocumentRepository.updateStatus document status
    { basisOf document with pendingCount := some pendingCount }

/-- The result is the object in the session, which the statement updates too.
Source: `SuggestionService._reopen_review`. -/
def reopenReview (document : Loaded Document) : Session (Loaded Document) :=
  if document.row.status = .ready then do
    let target ← documentTransition document.row.status .awaitingApproval
    let reopened ← DocumentRepository.compareAndSetStatus document.id
      document.row.currentAnalysisJobId .ready target
    if reopened = true then pure ⟨document.id, { document.row with status := target }⟩
    else throw (.invalidDocumentStatus .changedConcurrently)
  else pure document

/-- Source: `SuggestionService._assert_awaiting_approval`. -/
def assertAwaitingApproval (document : Loaded Document) : Session Unit :=
  if DocumentLifecycle.canReview document.row.status = true then pure ()
  else throw (.invalidDocumentStatus .notAwaitingApproval)

/-- Source: `SuggestionService._assert_decisions_resettable`. -/
def assertDecisionsResettable (document : Loaded Document) : Session Unit :=
  if DocumentLifecycle.canResetReview document.row.status = true then pure ()
  else throw (.invalidDocumentStatus .notResettable)

/-- Source: `SuggestionService._assert_has_active_job`. -/
def assertHasActiveJob (document : Loaded Document) : Session Uuid :=
  match document.row.currentAnalysisJobId with
  | some jobId => pure jobId
  | none => throw (.reviewNotComplete "У документа отсутствует текущий результат анализа")

/-- Source: `SuggestionService._get_suggestion_for_document`. -/
def getSuggestionForDocument (document : Loaded Document) (suggestionId : Uuid) :
    Session (Loaded Suggestion) := do
  let found ← SuggestionRepository.getById suggestionId
  match found with
  | some suggestion =>
      if some suggestion.row.analysisJobId = document.row.currentAnalysisJobId then pure suggestion
      else throw (.staleSuggestionJob suggestionId suggestion.row.analysisJobId)
  | none => throw (.suggestionNotFound suggestionId)

/-- The writing part of `DocumentExportService.export_and_save`. -/
def exportAndSave (document : Loaded Document) : ExportRun → Session (Loaded Document)
  | .fails => throw .storageFailure
  | .saves => withUow do
      let document ← DocumentRepository.updateExportedKey document
        (document.row.storageKey ++ ".exported")
      commit
      pure document

/-- Whatever the export raises, the review is not complete. Source: `SuggestionService._run_export`. -/
def runExport (document : Loaded Document) (run : ExportRun) : Session (Loaded Document) :=
  Prog.tryCatch (exportAndSave document run) fun _ =>
    throw (.reviewNotComplete "Не удалось применить утверждённые правки к документу.")

/-- The export if a service for it was given. -/
def exportIfAsked (document : Loaded Document) : Option ExportRun → Session (Loaded Document)
  | some run => runExport document run
  | none => pure document

/-! ## Resetting one decision -/

/-- Source: `SuggestionService.reset_suggestion`. -/
def resetSuggestion (projectId documentId suggestionId : Uuid) : Session (Loaded Suggestion) :=
  withUow do
    let document ← getDocumentOrRaise projectId documentId
    assertDecisionsResettable document
    let suggestion ← getSuggestionForDocument document suggestionId
    if suggestion.row.status = .pending then
      throw (.suggestionResetNotAllowed
        s!"Правка {suggestionId} уже в статусе PENDING — сбрасывать нечего")
    else do
      let _ ← reopenReview document
      let updated ← SuggestionRepository.resetStatus suggestion (basisOf document)
      match updated with
      | some updated => do
          commit
          pure updated
      | none => throw (.suggestionResetNotAllowed
          s!"Правка {suggestionId} была сброшена параллельным запросом. Обновите список правок и повторите.")

/-! ## Changing many suggestions -/

/-- Source: `SuggestionService._decide_pending`. -/
def decidePending (documentId jobId userId : Uuid) (targetStatus : SuggestionStatus)
    (ids : Option (List Uuid)) (filter : Option PatchFilter) : Session (List Uuid) :=
  match ids with
  | some ids => do
      let uniqueIds := ids.eraseDups
      let updated ← SuggestionRepository.bulkUpdateStatus
        { decisions := uniqueIds.map fun sid =>
            { suggestionId := sid, status := targetStatus, userId }
          documentId, userId, analysisJobId := jobId }
      if updated = uniqueIds.length then pure uniqueIds
      else throw (.suggestionAlreadyDecided
        "Часть правок не найдена в текущем анализе или уже обработана")
  | none =>
      if filter = some .decided then
        throw (.suggestionAlreadyDecided
          "Принять или отклонить можно только правки в статусе pending")
      else if targetStatus = .accepted then SuggestionRepository.bulkAcceptAll jobId userId
      else SuggestionRepository.bulkRejectAll jobId userId

/-- Source: `SuggestionService._reset_to_pending`. -/
def resetToPending (jobId : Uuid) (ids : Option (List Uuid)) (filter : Option PatchFilter)
    (basis : Basis) : Session (List Uuid) :=
  match ids with
  | none =>
      if filter = some .pending then pure []
      else SuggestionRepository.resetToPending jobId none basis
  | some ids => do
      let uniqueIds := ids.eraseDups
      let resetIds ← SuggestionRepository.resetToPending jobId (some uniqueIds) basis
      if resetIds.length = uniqueIds.length then pure resetIds
      else throw (.suggestionResetNotAllowed
        "Часть правок не найдена в текущем анализе или уже в статусе pending")

/-- Source: `SuggestionService.patch_suggestions`. -/
def patchSuggestions (projectId documentId userId : Uuid) (targetStatus : SuggestionStatus)
    (ids : Option (List Uuid)) (filter : Option PatchFilter) : Session PatchSuggestionsResult :=
  if ids.isNone = filter.isNone then throw (.valueError "Укажите ровно одно из: ids или filter")
  else withUow do
    let document ← getDocumentOrRaise projectId documentId
    if targetStatus = .pending then do
      assertDecisionsResettable document
      let jobId ← assertHasActiveJob document
      let updatedIds ← resetToPending jobId ids filter (basisOf document)
      let document ← (if updatedIds = [] then pure document else reopenReview document)
      commit
      pure { document, updatedIds }
    else do
      assertAwaitingApproval document
      let jobId ← assertHasActiveJob document
      let updatedIds ← decidePending documentId jobId userId targetStatus ids filter
      commit
      pure { document, updatedIds }

/-! ## Finishing a review -/

/-- `finalize_review` from the checks on. -/
def finalizeLoaded (document : Loaded Document) (exporting : Option ExportRun) :
    Session (Loaded Document) := do
  assertAwaitingApproval document
  let jobId ← assertHasActiveJob document
  let pendingCount ← SuggestionRepository.countByAnalysisJobAndStatus jobId .pending
  if pendingCount = 0 then do
    let document ← exportIfAsked document exporting
    let document ← finishReview document pendingCount
    commit
    pure document
  else throw (.reviewNotComplete
    s!"Нельзя завершить review: не рассмотрено предложений — {pendingCount}")

/-- Source: `SuggestionService.finalize_review`. -/
def finalizeReview (projectId documentId : Uuid) (exporting : Option ExportRun) :
    Session (Loaded Document) :=
  withUow do
    let document ← getDocumentOrRaise projectId documentId
    finalizeLoaded document exporting

/-- The decisions of one save. -/
def decisionsOf (documentId userId jobId : Uuid) (acceptedIds rejectedIds : List Uuid)
    (editedTexts : Uuid → Option Text) : ReviewDecisions where
  decisions :=
    acceptedIds.map (fun sid =>
      { suggestionId := sid, status := .accepted, userId, editedText := editedTexts sid }) ++
    rejectedIds.map fun sid => { suggestionId := sid, status := .rejected, userId }
  documentId := documentId
  userId := userId
  analysisJobId := jobId

/-- The end of `atomic_review_save` when the review is to be finalized. -/
def finalizeSave (document : Loaded Document) (pendingCount : ℕ) (exporting : Option ExportRun) :
    Session (Loaded Document) :=
  if pendingCount = 0 then do
    let document ← exportIfAsked document exporting
    finishReview document pendingCount
  else throw (.reviewNotComplete s!"Нельзя завершить ревью: осталось правок — {pendingCount}")

/-- `atomic_review_save` from the checks on. -/
def saveLoaded (document : Loaded Document) (documentId userId : Uuid) (reviewVersion : ℤ)
    (acceptedIds rejectedIds : List Uuid) (finalize : Bool) (exporting : Option ExportRun)
    (editedTexts : Uuid → Option Text) : Session ReviewSaveResult := do
  assertAwaitingApproval document
  let jobId ← assertHasActiveJob document
  let decisions := decisionsOf documentId userId jobId acceptedIds rejectedIds editedTexts
  let lockedDoc ← DocumentRepository.compareAndIncrementReviewVersion document reviewVersion
  match lockedDoc with
  | none => throw .optimisticLock
  | some document => do
      let updated ← SuggestionRepository.bulkUpdateStatus decisions
      if updated = decisions.decisions.length then do
        let pendingCount ← SuggestionRepository.countByAnalysisJobAndStatus jobId .pending
        let document ←
          (if finalize = true then finalizeSave document pendingCount exporting
          else pure document)
        commit
        pure
          { document, acceptedCount := acceptedIds.length, rejectedCount := rejectedIds.length
            pendingCount, finalized := finalize }
      else throw (.suggestionAlreadyDecided
        "Часть правок не найдена в текущем анализе или уже обработана")

/-- Source: `SuggestionService.atomic_review_save`. -/
def atomicReviewSave (projectId documentId userId : Uuid) (reviewVersion : ℤ)
    (acceptedIds rejectedIds : List Uuid) (finalize : Bool) (exporting : Option ExportRun)
    (editedTexts : Uuid → Option Text) : Session ReviewSaveResult :=
  withUow do
    let document ← getDocumentOrRaise projectId documentId
    saveLoaded document documentId userId reviewVersion acceptedIds rejectedIds finalize exporting
      editedTexts

end SuggestionService

end SyncBack
