import SyncBack.Application.ReviewOutcomes

/-!
# What a save of a review does

`atomic_review_save` checks its list of decisions by comparing the number of rows that one `UPDATE`
has changed with the number of decisions. Run alone, and without an export, it succeeds exactly where
`Savable` holds; it makes `Saved` of the committed rows then, and otherwise leaves them alone.
-/

namespace SyncBack

open Txn

namespace ReviewRequest

variable (request : ReviewRequest)

/-- **What a save makes of the committed rows**: the suggestions of the request are decided, the
document has the next version of its review, and nothing else changes. -/
structure Saved (now : ℕ) (rows rows' : Rows) : Prop where
  accepted : ∀ id ∈ request.acceptedIds, ∀ row : Suggestion, rows (.suggestion id) = some row →
    rows' (.suggestion id) = some { row with
      status := .accepted, editedText := request.editedTexts id
      decidedBy := some request.userId, decidedAt := some now }
  rejected : ∀ id ∈ request.rejectedIds, ∀ row : Suggestion, rows (.suggestion id) = some row →
    rows' (.suggestion id) = some { row with
      status := .rejected, editedText := none
      decidedBy := some request.userId, decidedAt := some now }
  document : ∀ row : Document, rows (.document request.documentId) = some row →
    ∃ basis, rows' (.document request.documentId) = some { row with
      reviewVersion := row.reviewVersion + 1
      status := if request.finalize = true then .ready else row.status, basis }
  others : ∀ k, k ≠ .document request.documentId → (∀ id ∈ request.ids, k ≠ .suggestion id) →
    rows' k = rows k

variable {request} {now : ℕ} {rows : Rows} {document : Document} {jobId : Uuid}

/-- The rows that a save ends with are what it makes of the rows that it began with. -/
theorem Savable.saved (h : request.Savable rows document jobId) (basis : Basis) :
    request.Saved now rows (Rows.review rows (request.decideListed now) request.documentId
      (request.savedDocument false document basis)) := by
  obtain ⟨-, -, hdisjoint⟩ := List.nodup_append'.mp h.nodup
  constructor
  · intro id hid row hrow
    have hlisted : id ∈ request.ids := List.mem_append_left _ hid
    rw [Rows.review_suggestion, hrow, Option.map_some, decideListed, if_pos hlisted, decided,
      if_pos hid, if_pos hid]
  · intro id hid row hrow
    have hlisted : id ∈ request.ids := List.mem_append_right _ hid
    have hnot : id ∉ request.acceptedIds := fun haccepted => hdisjoint haccepted hid
    rw [Rows.review_suggestion, hrow, Option.map_some, decideListed, if_pos hlisted, decided,
      if_neg hnot, if_neg hnot]
  · intro row hrow
    obtain rfl := Option.some.inj (h.found.symm.trans hrow)
    rw [Rows.review_document, savedDocument]
    by_cases hfinalize : request.finalize = true
    · rw [if_pos hfinalize, if_pos hfinalize]
      exact ⟨basis, rfl⟩
    · rw [if_neg hfinalize, if_neg hfinalize]
      exact ⟨document.basis, rfl⟩
  · intro k hdocument hids
    rw [Rows.review_of_ne hdocument]
    refine Rows.mapSuggestions_of_ne fun id row hk _ => ?_
    exact if_neg fun hid => hids id hid hk

end ReviewRequest

/-- Where nothing fails a save reaches its commit if it may be made. -/
theorem reaches_calm {request : ReviewRequest} {s : AppDb} {document : Document} {jobId : Uuid} :
    request.Reaches (fun _ => false) false s document jobId ↔
      request.Savable s.committed document jobId := by
  constructor
  · exact fun h => h.toSavable
  · intro h
    exact { h with
      getDocument := rfl, incrementVersion := rfl, updateSuggestions := rfl, countPending := rfl
      exports := fun _ h => nomatch h }

/-- **A save that runs alone succeeds exactly where it may be made**, and does all that it is asked
for or nothing. -/
theorem atomicReviewSave_alone (request : ReviewRequest) {t : Process} {s : AppDb}
    (hquiet : s.Quiet) :
    ∃ r s', (SuggestionService.atomicReviewSave request.projectId request.documentId request.userId
        request.reviewVersion request.acceptedIds request.rejectedIds request.finalize none
        request.editedTexts).runAlone t s = some (r, s') ∧
      ((∃ result, r = .ok result) ↔
        ∃ document jobId, request.Savable s.committed document jobId) ∧
      ((∃ document jobId, request.Savable s.committed document jobId) →
        request.Saved s.clock s.committed s'.committed) ∧
      ((¬ ∃ document jobId, request.Savable s.committed document jobId) →
        s'.committed = s.committed) := by
  rw [← ReviewExports.atomicReviewSave_calm (s.keys.length + 1) false]
  obtain ⟨r, s', hrun⟩ := (immediate_atomicReviewSave (fun _ => false) (s.keys.length + 1) request
    false false).ends_alone (t := t) (s := s) fun t' _ => Db.idle_of_quiet hquiet t'
  have hends := (ensures_atomicReviewSave (fun _ => false) request false false
    (Db.idle_of_quiet hquiet t) (Nat.lt_succ_self _)).of_runAlone hrun
  refine ⟨r, s', hrun, ?_⟩
  rcases r with e | result
  · rcases hends with ⟨hsame, hnot | ⟨-, h | h⟩⟩ | ⟨-, -, h | h | ⟨-, h⟩, -⟩
    · have hnone : ¬ ∃ document jobId, request.Savable s.committed document jobId := by
        rintro ⟨document, jobId, h⟩
        exact hnot ⟨document, jobId, reaches_calm.mpr h⟩
      exact ⟨⟨fun ⟨_, h⟩ => (nomatch h), fun h => absurd h hnone⟩, fun h => absurd h hnone,
        fun _ => hsame⟩
    all_goals cases h
  · obtain ⟨document, jobId, hreaches, -, basis, hcommitted⟩ := hends
    have hsavable := reaches_calm.mp hreaches
    refine ⟨⟨fun _ => ⟨document, jobId, hsavable⟩, fun _ => ⟨result, rfl⟩⟩, fun _ => ?_,
      fun hnone => absurd ⟨document, jobId, hsavable⟩ hnone⟩
    rw [hcommitted]
    exact hsavable.saved basis

/-- A document under review with one suggestion that is pending. -/
def oneSuggestion : AppDb :=
  AppDb.ofRows
    [⟨.document (9, 0), { projectId := (9, 2), name := "a.txt", format := .txt, storageKey := "a"
                          sizeBytes := 1, status := .awaitingApproval
                          currentAnalysisJobId := some (9, 1) }⟩,
      ⟨.suggestion (9, 3), { analysisJobId := (9, 1), documentId := (9, 0), sectionRef := []
                             changeType := .modify }⟩] []

/-- Accept the suggestion with an edit of its text, and finish the review. -/
def acceptOne : ReviewRequest where
  projectId := (9, 2)
  documentId := (9, 0)
  userId := (9, 4)
  reviewVersion := 0
  acceptedIds := [(9, 3)]
  rejectedIds := []
  finalize := true
  editedTexts _ := some ['x']

/-- The save may be made. -/
theorem acceptOne_savable : ∃ document jobId,
    acceptOne.Savable oneSuggestion.committed document jobId := by
  refine ⟨_, (9, 1), ⟨rfl, rfl, rfl, rfl⟩, rfl, List.nodup_singleton _, fun id hid => ?_,
    fun _ id row hrow _ _ => ?_⟩
  · obtain rfl := List.mem_singleton.mp hid
    exact ⟨_, rfl, rfl, rfl, rfl⟩
  · have hmem := List.of_mem_dlookup hrow
    simp only [List.mem_cons, List.not_mem_nil, or_false, Sigma.mk.injEq, reduceCtorEq, false_and,
      false_or, Key.suggestion.injEq] at hmem
    exact List.mem_singleton.mpr hmem.1

/-- Saving the one decision finishes the review. -/
theorem one_decision_saved : ∃ result s', (SuggestionService.atomicReviewSave (9, 2) (9, 0) (9, 4) 0
      [(9, 3)] [] true none fun _ => some ['x']).runAlone 0 oneSuggestion = some (.ok result, s') ∧
    acceptOne.Saved 0 oneSuggestion.committed s'.committed := by
  obtain ⟨r, s', hrun, hok, hsaved, -⟩ :=
    atomicReviewSave_alone acceptOne (t := 0) (s := oneSuggestion) fun _ => rfl
  obtain ⟨result, rfl⟩ := hok.mpr acceptOne_savable
  exact ⟨result, s', hrun, hsaved acceptOne_savable⟩

end SyncBack
