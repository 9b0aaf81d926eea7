import SyncBack.Application.ReviewRules

/-!
# The outcomes of a review

`ensures_atomicReviewSave` says of every way in which a save can end, alone and with any of its calls
raising, what is committed then. `Savable` is what a save asks of the committed rows,
`Succeeded` and `Failed` what is committed after it; `Exports` is what an export asks of the calls.
-/

namespace SyncBack

open Txn Session

/-- The document is one of the project whose review can go on, for the job. -/
structure UnderReview (rows : Rows) (projectId documentId : Uuid) (document : Document)
    (jobId : Uuid) : Prop where
  found : rows (.document documentId) = some document
  project : document.projectId = projectId
  status : document.status = .awaitingApproval
  job : document.currentAnalysisJobId = some jobId

/-- The arguments of `atomic_review_save`. -/
structure ReviewRequest where
  projectId : Uuid
  documentId : Uuid
  userId : Uuid
  reviewVersion : ℤ
  acceptedIds : List Uuid
  rejectedIds : List Uuid
  finalize : Bool
  editedTexts : Uuid → Option Text

namespace ReviewRequest

variable (request : ReviewRequest)

/-- The suggestions that the request decides on. -/
def ids : List Uuid := request.acceptedIds ++ request.rejectedIds

/-- The decisions of the request on the suggestions of a job. -/
def decisions (jobId : Uuid) : ReviewDecisions :=
  SuggestionService.decisionsOf request.documentId request.userId jobId request.acceptedIds
    request.rejectedIds request.editedTexts

/-- A suggestion that the request decides on, after the decision. -/
def decided (now : ℕ) (id : Uuid) (row : Suggestion) : Suggestion :=
  { row with
    status := if id ∈ request.acceptedIds then .accepted else .rejected
    editedText := if id ∈ request.acceptedIds then request.editedTexts id else none
    decidedBy := some request.userId
    decidedAt := some now }

/-- A suggestion after the decisions of the request. -/
def decideListed (now : ℕ) (id : Uuid) (row : Suggestion) : Suggestion :=
  if id ∈ request.ids then request.decided now id row else row

/-- **What a save asks of the committed rows.** -/
structure Savable (rows : Rows) (document : Document) (jobId : Uuid) : Prop
    extends UnderReview rows request.projectId request.documentId document jobId where
  version : document.reviewVersion = request.reviewVersion
  nodup : request.ids.Nodup
  pending : ∀ id ∈ request.ids, ∃ row : Suggestion, rows (.suggestion id) = some row ∧
    row.status = .pending ∧ row.documentId = request.documentId ∧ row.analysisJobId = jobId
  complete : request.finalize = true → ∀ id (row : Suggestion), rows (.suggestion id) = some row →
    row.analysisJobId = jobId → row.status = .pending → id ∈ request.ids

end ReviewRequest

/-! ## Decisions -/

section decisions

variable {request : ReviewRequest} {jobId : Uuid}

/-- The decisions name the suggestions of the request. -/
theorem suggestionIds_decisions :
    (request.decisions jobId).decisions.map (·.suggestionId) = request.ids := by
  simp [ReviewRequest.decisions, SuggestionService.decisionsOf, ReviewRequest.ids,
    Function.comp_def]

/-- There are as many as it lists. -/
theorem length_decisions : (request.decisions jobId).decisions.length = request.ids.length := by
  rw [← @suggestionIds_decisions request jobId, List.length_map]

/-- Pending suggestions of the job and the document are decided, if the request lists them. -/
theorem decidable_decisions {id : Uuid} {row : Suggestion} :
    SuggestionRepository.decidable (request.decisions jobId) id row = true ↔
      row.documentId = request.documentId ∧ row.status = .pending ∧ id ∈ request.ids ∧
        row.analysisJobId = jobId := by
  rw [SuggestionRepository.decidable, suggestionIds_decisions]
  simp only [ReviewRequest.decisions, SuggestionService.decisionsOf, Bool.and_eq_true,
    decide_eq_true_eq, Option.some.injEq, Option.all_some, and_assoc]
  rw [eq_comm]

/-- The edited text that a decision of the request carries for a suggestion. -/
theorem editedText_decisions (id : Uuid) :
    (((request.decisions jobId).decisions.filter (·.editedText.isSome)).find?
        (·.suggestionId = id)).bind (·.editedText) =
      if id ∈ request.acceptedIds then request.editedTexts id else none := by
  have hmem : ∀ d ∈ (request.decisions jobId).decisions, d.editedText.isSome = true →
      d.suggestionId ∈ request.acceptedIds ∧
        d.editedText = request.editedTexts d.suggestionId := by
    intro d hd hsome
    rcases List.mem_append.mp hd with hd | hd
    · obtain ⟨sid, hsid, rfl⟩ := List.mem_map.mp hd
      exact ⟨hsid, rfl⟩
    · obtain ⟨sid, -, rfl⟩ := List.mem_map.mp hd
      cases hsome
  rcases hfind : ((request.decisions jobId).decisions.filter (·.editedText.isSome)).find?
      (·.suggestionId = id) with _ | d
  · rw [hfind, Option.bind_none, eq_comm, ite_eq_right_iff]
    intro haccepted
    by_contra hedit
    refine List.find?_eq_none.mp hfind
      { suggestionId := id, status := .accepted, userId := request.userId,
        editedText := request.editedTexts id } ?_ (by simp)
    refine List.mem_filter.mpr ⟨List.mem_append_left _ (List.mem_map.mpr ⟨id, haccepted, rfl⟩), ?_⟩
    exact Option.isSome_iff_ne_none.mpr hedit
  · have hid : d.suggestionId = id := by simpa using List.find?_some hfind
    obtain ⟨hd, hsome⟩ := List.mem_filter.mp (List.mem_of_find?_eq_some hfind)
    obtain ⟨haccepted, hedit⟩ := hmem d hd hsome
    rw [hfind, Option.bind_some, hedit, hid, if_pos (hid ▸ haccepted)]

/-- A decision of the list is the decision of the request. -/
theorem decided_decisions (now : ℕ) (id : Uuid) (row : Suggestion) :
    SuggestionRepository.decided (request.decisions jobId) now id row =
      request.decided now id row := by
  have haccepted : id ∈ ((request.decisions jobId).decisions.filter
      (·.status = .accepted)).map (·.suggestionId) ↔ id ∈ request.acceptedIds := by
    simp [ReviewRequest.decisions, SuggestionService.decisionsOf, List.filter_append,
      List.filter_map, Function.comp_def]
  unfold SuggestionRepository.decided ReviewRequest.decided
  dsimp only
  rw [editedText_decisions]
  simp only [haccepted]
  rfl

/-- It leaves no suggestion pending. -/
theorem decided_not_pending (now : ℕ) (id : Uuid) (row : Suggestion) :
    (request.decided now id row).status ≠ .pending := by
  unfold ReviewRequest.decided
  dsimp only
  split <;> simp

/-- **Counting the rewritten rows checks the whole list**: as many as there are decisions means that
no id is repeated and that each is one of a suggestion that can be decided. -/
theorem length_updated_iff {updated ids : List Uuid} (hnodup : updated.Nodup)
    (hsub : updated ⊆ ids) :
    updated.length = ids.length ↔ ids.Nodup ∧ ids ⊆ updated := by
  constructor
  · intro hlength
    have hperm := (List.subperm_of_subset hnodup hsub).perm_of_length_le hlength.ge
    exact ⟨hperm.nodup_iff.mp hnodup, hperm.symm.subset⟩
  · rintro ⟨hids, hsub'⟩
    exact ((List.perm_ext_iff_of_nodup hnodup hids).mpr fun id =>
      ⟨fun h => hsub h, fun h => hsub' h⟩).length_eq

end decisions

variable {fails : Failures} {t : Process} {s₀ s : AppDb} {rows : Rows} {α β : Type}
  {Q : Except DomainError β → AppDb → Prop} {documentId jobId : Uuid} {row : Document}

/-! ## The checks -/

/-- The checks that both operations begin with. -/
theorem ensures_underReview {projectId : Uuid} {rest : Loaded Document → Uuid → Session β}
    (hidle : s.Idle t)
    (hfails : ∀ e, ¬ (fails .getDocument = false ∧
      ∃ row jobId, UnderReview s.committed projectId documentId row jobId) → Q (.error e) s)
    (hgoes : fails .getDocument = false → ∀ row jobId,
      UnderReview s.committed projectId documentId row jobId →
      (rest ⟨documentId, row⟩ jobId).Ensures t s Q) :
    (ReviewExports.attempt fails .getDocument .databaseFailure
      (getDocumentOrRaise projectId documentId) >>= fun document =>
        SuggestionService.assertAwaitingApproval document >>= fun _ =>
          SuggestionService.assertHasActiveJob document >>= rest document).Ensures t s Q := by
  refine ensures_attempt (fun hget => hfails _ fun h => ?_) fun hget => ?_
  · rw [h.1] at hget
    cases hget
  have hread := hidle.read (.document documentId)
  refine ensures_getDocumentOrRaise (fun row hrow hproject => ?_) fun e hmissing => hfails e ?_
  swap
  · rintro ⟨-, row, jobId, h⟩
    exact hmissing row (hread.trans h.found) h.project
  rw [hread] at hrow
  unfold SuggestionService.assertAwaitingApproval
  by_cases hstatus : row.status = .awaitingApproval
  · rw [if_pos (by simp [DocumentLifecycle.canReview, hstatus]), Prog.pure_bind']
    unfold SuggestionService.assertHasActiveJob
    rcases hjob : row.currentAnalysisJobId with _ | jobId
    · refine hfails _ ?_
      rintro ⟨-, row', jobId, h⟩
      obtain rfl := Option.some.inj (hrow.symm.trans h.found)
      cases hjob.symm.trans h.job
    · exact hgoes hget row jobId ⟨hrow, hproject, hstatus, hjob⟩
  · rw [if_neg (by simp [DocumentLifecycle.canReview, hstatus])]
    refine hfails _ ?_
    rintro ⟨-, row', jobId, h⟩
    obtain rfl := Option.some.inj (hrow.symm.trans h.found)
    exact hstatus h.status

/-! ## The export -/

/-- **What an export asks of the calls**, when there are `accepted` changes. -/
structure Exports (fails : Failures) (accepted : List Suggestion) : Prop where
  download : fails .download = false
  readChanges : ∀ page ≤ accepted.length / ReviewExports.exportPageSize,
    fails (.readChanges page) = false
  applyChanges : fails .applyChanges = false
  upload : fails .upload = false
  flushExportedKey : fails .flushExportedKey = false
  commitExport : fails .commitExport = false

/-- The document after its export. -/
def Document.exported (row : Document) : Document :=
  row.withExportedKey (row.storageKey ++ ".exported")

section export_

variable (h : s₀.Rewrites t rows s)
include h

/-- The export reads the accepted suggestions, page by page, and changes nothing. -/
theorem ensures_applyAcceptedChanges (hjob : row.currentAnalysisJobId = some jobId) {fuel : ℕ}
    (hfuel : s₀.keys.length < fuel) {rest : List AppliedChange → Session β}
    (hfails : ¬ Exports fails (rows.suggestions s₀.keys jobId .accepted) →
      ∀ e s', s'.committed = s₀.committed → Q (.error e) s')
    (hgoes : fails .download = false →
      (∀ page ≤ (rows.suggestions s₀.keys jobId .accepted).length / ReviewExports.exportPageSize,
        fails (.readChanges page) = false) → fails .applyChanges = false →
      (rest ((rows.suggestions s₀.keys jobId .accepted).map Suggestion.toChange)).Ensures t s Q) :
    (ReviewExports.applyAcceptedChanges fails fuel ⟨documentId, row⟩ >>= rest).Ensures t s Q := by
  have hpages : (rows.suggestions s₀.keys jobId .accepted).length / ReviewExports.exportPageSize <
      0 + fuel := by
    have hle := rows.length_suggestions_le s₀.keys jobId .accepted
    have hdiv := Nat.div_le_self (rows.suggestions s₀.keys jobId .accepted).length
      ReviewExports.exportPageSize
    omega
  unfold ReviewExports.applyAcceptedChanges
  simp only [Prog.bind_assoc']
  refine ensures_attempt (fun hdownload => hfails (fun hexports => ?_) _ s h.committed)
    fun hdownload => ?_
  · rw [hexports.download] at hdownload
    cases hdownload
  rw [Prog.pure_bind']
  refine Prog.Ensures.bind (A := fun changes s' => s' = s ∧
      changes = (rows.suggestions s₀.keys jobId .accepted).map Suggestion.toChange ∧
      ∀ page ≤ (rows.suggestions s₀.keys jobId .accepted).length / ReviewExports.exportPageSize,
        fails (.readChanges page) = false)
    (E := fun _ s' => s'.committed = s₀.committed ∧
      ¬ Exports fails (rows.suggestions s₀.keys jobId .accepted)) ?_ ?_
    fun e s' he => hfails he.2 e s' he.1
  · refine ensures_unitOfWork (E := fun s' => s' = s ∧
      ¬ Exports fails (rows.suggestions s₀.keys jobId .accepted)) ?_ ?_
    · simp only [ReviewExports.iterAcceptedChangesPages, hjob]
      refine (ensures_readPages h fuel 0 (Nat.zero_le _) hpages).mono fun r s' hr => ?_
      rcases r with e | changes
      · obtain ⟨rfl, page, hpage, hread⟩ := hr
        refine ⟨rfl, fun hexports => ?_⟩
        rw [hexports.readChanges page hpage] at hread
        cases hread
      · obtain ⟨rfl, rfl, hread⟩ := hr
        exact ⟨rfl, by simp, fun page hpage => hread page (Nat.zero_le _) hpage⟩
    · rintro e s' ⟨rfl, hnot⟩
      exact ⟨⟨h.committed, hnot⟩, h.committed, hnot⟩
  · rintro changes s' ⟨rfl, rfl, hread⟩
    refine ensures_attempt (fun happly => hfails (fun hexports => ?_) _ s' h.committed)
      fun happly => hgoes hdownload hread happly
    rw [hexports.applyChanges] at happly
    cases happly

/-- The export's key is written and committed, or nothing is. -/
theorem ensures_saveExportedKey (hrow : rows (.document documentId) = some row) :
    (ReviewExports.saveExportedKey fails ⟨documentId, row⟩).Ensures t s (ending
      (fun document s' => fails .flushExportedKey = false ∧ fails .commitExport = false ∧
        document = ⟨documentId, row.exported⟩ ∧
        s'.committed = Function.update rows (.document documentId) (some row.exported) ∧ s'.Idle t)
      fun _ s' => (fails .flushExportedKey = true ∨ fails .commitExport = true) ∧
        s'.committed = s₀.committed) := by
  refine ensures_unitOfWork (E := fun s' => (fails .flushExportedKey = true ∨
    fails .commitExport = true) ∧ s'.committed = s₀.committed) ?_ fun e s' he => ⟨he, he⟩
  refine ensures_attempt (fun hflush => ⟨.inl hflush, h.committed⟩) fun hflush => ?_
  refine ensures_updateExportedKey h hrow fun s' hs' => ?_
  refine ensures_attempt (fun hcommit => ⟨.inr hcommit, hs'.committed⟩) fun hcommit => ?_
  exact Prog.Ensures.commit (g := fun _ => pure _)
    ⟨hflush, hcommit, rfl, hs'.read, Db.idle_commit s' t⟩

/-- **The export goes through and commits what the transaction has done so far, or nothing is
committed.** -/
theorem ensures_runExport (hrow : rows (.document documentId) = some row)
    (hjob : row.currentAnalysisJobId = some jobId) {fuel : ℕ} (hfuel : s₀.keys.length < fuel)
    {rest : Loaded Document → Session β}
    (hfails : ¬ Exports fails (rows.suggestions s₀.keys jobId .accepted) →
      ∀ e s', s'.committed = s₀.committed → Q (.error e) s')
    (hgoes : Exports fails (rows.suggestions s₀.keys jobId .accepted) → ∀ s' : AppDb,
      s'.committed = Function.update rows (.document documentId) (some row.exported) →
      s'.Idle t → (rest ⟨documentId, row.exported⟩).Ensures t s' Q) :
    (ReviewExports.runExport fails fuel ⟨documentId, row⟩ >>= rest).Ensures t s Q := by
  refine Prog.Ensures.bind (A := fun document s' =>
      Exports fails (rows.suggestions s₀.keys jobId .accepted) ∧
      document = ⟨documentId, row.exported⟩ ∧
      s'.committed = Function.update rows (.document documentId) (some row.exported) ∧ s'.Idle t)
    (E := fun _ s' => s'.committed = s₀.committed ∧
      ¬ Exports fails (rows.suggestions s₀.keys jobId .accepted)) ?_ ?_
    fun e s' he => hfails he.2 e s' he.1
  swap
  · rintro document s' ⟨hexports, rfl, hcommitted, hidle⟩
    exact hgoes hexports s' hcommitted hidle
  refine Prog.Ensures.tryCatch (E := fun _ s' => s'.committed = s₀.committed ∧
    ¬ Exports fails (rows.suggestions s₀.keys jobId .accepted)) ?_ fun e s' he => he
  refine ensures_applyAcceptedChanges h hjob hfuel (fun hnot e s' hs' => ⟨hs', hnot⟩)
    fun hdownload hread happly => ?_
  refine ensures_attempt (fun hupload => ⟨h.committed, fun hexports => ?_⟩) fun hupload => ?_
  · rw [hexports.upload] at hupload
    cases hupload
  refine (ensures_saveExportedKey h hrow).mono fun r s' hr => ?_
  rcases r with e | document
  · obtain ⟨hsave, hcommitted⟩ := hr
    refine ⟨hcommitted, fun hexports => ?_⟩
    rw [hexports.flushExportedKey, hexports.commitExport] at hsave
    simp at hsave
  · obtain ⟨hflush, hcommit, rfl, hcommitted, hidle⟩ := hr
    exact ⟨⟨hdownload, hread, happly, hupload, hflush, hcommit⟩, rfl, hcommitted, hidle⟩

end export_

/-! ## The end of a review -/

/-- What the export has committed before the review ends. -/
def afterExport (exporting : Bool) (committed rows : Rows) (documentId : Uuid) (row : Document) :
    Rows :=
  if exporting = true then Function.update rows (.document documentId) (some row.exported)
  else committed

/-- The document in the session when the review ends. -/
def Document.exportedIf (exporting : Bool) (row : Document) : Document :=
  if exporting = true then row.exported else row

/-- **The end of a review**: the export, if there is one, and then the status. -/
theorem ensures_finish {exporting : Bool} (h : s₀.Rewrites t rows s)
    (hrow : rows (.document documentId) = some row) (hstatus : row.status = .awaitingApproval)
    (hjob : row.currentAnalysisJobId = some jobId) {fuel : ℕ} (hfuel : s₀.keys.length < fuel)
    {pendingCount : ℕ} {rest : Loaded Document → Session β}
    (hfails : exporting = true → ¬ Exports fails (rows.suggestions s₀.keys jobId .accepted) →
      ∀ e s', s'.committed = s₀.committed → Q (.error e) s')
    (hflush : (exporting = true → Exports fails (rows.suggestions s₀.keys jobId .accepted)) →
      fails .flushStatus = true → ∀ e s',
      s'.committed = afterExport exporting s₀.committed rows documentId row → Q (.error e) s')
    (hgoes : (exporting = true → Exports fails (rows.suggestions s₀.keys jobId .accepted)) →
      fails .flushStatus = false → ∀ basis (s₁ s' : AppDb),
      s₁.committed = afterExport exporting s₀.committed rows documentId row →
      s₁.Rewrites t (Function.update rows (.document documentId)
        (some ((row.exportedIf exporting).withStatus .ready basis))) s' →
      (rest ⟨documentId, (row.exportedIf exporting).withStatus .ready basis⟩).Ensures t s' Q) :
    (ReviewExports.finish fails fuel exporting ⟨documentId, row⟩ pendingCount >>= rest).Ensures t s
      Q := by
  unfold ReviewExports.finish ReviewExports.exportIfAsked
  simp only [Prog.bind_assoc']
  cases exporting
  case false =>
    have hnone : false = true → Exports fails (rows.suggestions s₀.keys jobId .accepted) :=
      fun hexporting => absurd hexporting Bool.false_ne_true
    refine ensures_attempt (fun hflushes => hflush hnone hflushes _ s h.committed) fun hflushes => ?_
    exact ensures_finishReview h hrow hstatus fun basis s' hs' =>
      hgoes hnone hflushes basis s₀ s' rfl hs'
  case true =>
    refine ensures_runExport h hrow hjob hfuel (hfails rfl) fun hexports s₁ hcommitted hidle => ?_
    refine ensures_attempt (fun hflushes => hflush (fun _ => hexports) hflushes _ s₁ hcommitted)
      fun hflushes => ?_
    have hrow₁ : s₁.committed (.document documentId) = some row.exported := by
      rw [hcommitted, Function.update_self]
    refine ensures_finishReview (Db.Rewrites.refl hidle) hrow₁ hstatus fun basis s' hs' => ?_
    rw [hcommitted, Function.update_idem] at hs'
    exact hgoes (fun _ => hexports) hflushes basis s₁ s' hcommitted hs'

/-- The commit, and telling the owner of the project. -/
theorem ensures_commitReview {publishing changed : Bool} (h : s₀.Rewrites t rows s)
    {rest : Unit → Session β}
    (hfails : fails .commitReview = true → ∀ e s', s'.committed = s₀.committed → Q (.error e) s')
    (hlate : fails .commitReview = false → publishing = true → changed = true →
      fails .readOwner = true → ∀ e s', s'.committed = rows → Q (.error e) s')
    (hgoes : fails .commitReview = false →
      ¬ (publishing = true ∧ changed = true ∧ fails .readOwner = true) → ∀ s' : AppDb,
      s'.committed = rows → (rest ()).Ensures t s' Q) :
    (ReviewExports.commitReview fails publishing changed >>= rest).Ensures t s Q := by
  unfold ReviewExports.commitReview
  simp only [Prog.bind_assoc']
  refine ensures_attempt (fun hcommit => hfails hcommit _ s h.committed) fun hcommit => ?_
  refine Prog.Ensures.commit ?_
  have hcommitted : (s.commit t).committed = rows := h.read
  by_cases htold : publishing = true ∧ changed = true
  · rw [if_pos (by simpa using htold)]
    refine ensures_attempt
      (fun howner => hlate hcommit htold.1 htold.2 howner _ _ hcommitted) fun howner => ?_
    refine hgoes hcommit (fun hread => ?_) _ hcommitted
    rw [howner] at hread
    cases hread.2.2
  · rw [if_neg (by simpa using htold)]
    exact hgoes hcommit (fun hread => htold ⟨hread.1, hread.2.1⟩) _ hcommitted

/-! ## The save -/

/-- A call raises that comes after the commit of the export. -/
def LateFailure (fails : Failures) (publishing : Bool) : Prop :=
  fails .flushStatus = true ∨ fails .commitReview = true ∨
    publishing = true ∧ fails .readOwner = true

namespace ReviewRequest

variable (request : ReviewRequest)

/-- **The save gets to its first commit**, the one of the export if there is one; or else only the
status and the last commit are left. -/
structure Reaches (fails : Failures) (exporting : Bool) (s : AppDb) (document : Document)
    (jobId : Uuid) : Prop extends request.Savable s.committed document jobId where
  getDocument : fails .getDocument = false
  incrementVersion : fails .incrementVersion = false
  updateSuggestions : fails .updateSuggestions = false
  countPending : fails .countPending = false
  exports : request.finalize = true → exporting = true → Exports fails
    (Rows.suggestions (Rows.mapSuggestions (request.decideListed s.clock) s.committed) s.keys jobId
      .accepted)

/-- The document after the save. -/
def savedDocument (exporting : Bool) (document : Document) (basis : Basis) : Document :=
  if request.finalize = true then
    (document.withNextVersion.exportedIf exporting).withStatus .ready basis
  else document.withNextVersion

/-- What is committed after a save that went through. -/
def Succeeded (fails : Failures) (exporting publishing : Bool) (s : AppDb) (committed : Rows) :
    Prop :=
  ∃ document jobId, request.Reaches fails exporting s document jobId ∧
    (request.finalize = true → ¬ LateFailure fails publishing) ∧
    ∃ basis, committed = Rows.review s.committed (request.decideListed s.clock) request.documentId
      (request.savedDocument exporting document basis)

/-- What is committed after a save that raised. -/
def Failed (fails : Failures) (exporting publishing : Bool) (s : AppDb) (committed : Rows) : Prop :=
  (committed = s.committed ∧
    ((¬ ∃ document jobId, request.Reaches fails exporting s document jobId) ∨
      ¬ (request.finalize = true ∧ exporting = true) ∧
        (fails .flushStatus = true ∨ fails .commitReview = true))) ∨
  (committed ≠ s.committed ∧ request.finalize = true ∧ LateFailure fails publishing ∧
    ∃ document jobId, request.Reaches fails exporting s document jobId)

end ReviewRequest

section save

variable {request : ReviewRequest} {exporting publishing : Bool} {document : Document}

/-- The version tells the rows after the save from those before it. -/
theorem review_ne_of_version {g : Uuid → Suggestion → Suggestion} {document' : Document}
    (hfound : rows (.document documentId) = some document)
    (hversion : document'.reviewVersion = document.reviewVersion + 1) :
    rows.review g documentId document' ≠ rows := by
  intro heq
  have hsame := congrFun heq (.document documentId)
  rw [Rows.review_document, hfound, Option.some.injEq] at hsame
  rw [hsame] at hversion
  omega

/-- An export keeps the version of the review. -/
theorem exportedIf_reviewVersion (exporting : Bool) (row : Document) :
    (row.exportedIf exporting).reviewVersion = row.reviewVersion := by
  cases exporting <;> rfl

/-- The accepted changes do not depend on the document. -/
theorem suggestions_review {g : Uuid → Suggestion → Suggestion} (keys : List Key)
    (status : SuggestionStatus) :
    (rows.review g documentId document).suggestions keys jobId status =
      (rows.mapSuggestions g).suggestions keys jobId status := by
  unfold Rows.suggestions
  congr 1
  refine List.filterMap_congr fun k _ => ?_
  by_cases hk : k = .document documentId
  · subst hk
    have hnone : ∀ o : Option Document, o.filter
        (SuggestionRepository.ofJobAndStatus jobId status (.document documentId)) = none := by
      rintro (_ | row) <;> rfl
    rw [hnone, hnone]
  · rw [Rows.review_of_ne hk]

/-- The end of a save, from the rows that the decisions leave. -/
theorem ensures_finishSave {fuel : ℕ} (hfuel : s₀.keys.length < fuel)
    (hsavable : request.Savable s₀.committed document jobId)
    (hget : fails .getDocument = false) (hincrement : fails .incrementVersion = false)
    (hupdate : fails .updateSuggestions = false) (hcount : fails .countPending = false)
    (h : s₀.Rewrites t (Rows.review s₀.committed (request.decideListed s₀.clock)
      request.documentId document.withNextVersion) s) {pendingCount : ℕ}
    (hpending : request.finalize = true → pendingCount = 0) :
    (ReviewExports.finishSave fails fuel exporting publishing request.acceptedIds
      request.rejectedIds request.finalize ⟨request.documentId, document.withNextVersion⟩
      pendingCount).Ensures t s
      (ending (fun _ s' => request.Succeeded fails exporting publishing s₀ s'.committed)
        fun _ s' => request.Failed fails exporting publishing s₀ s'.committed) := by
  have hchanged : ∀ document' : Document,
      document'.reviewVersion = document.reviewVersion + 1 →
      Rows.review s₀.committed (request.decideListed s₀.clock) request.documentId document' ≠
        s₀.committed := fun document' => review_ne_of_version hsavable.found
  unfold ReviewExports.finishSave
  rcases hfinalize : request.finalize with _ | _
  · -- nothing but the last commit is left
    have hreaches : request.Reaches fails exporting s₀ document jobId :=
      { hsavable with
        getDocument := hget, incrementVersion := hincrement, updateSuggestions := hupdate
        countPending := hcount, exports := fun h => nomatch hfinalize.symm.trans h }
    change (ReviewExports.commitReview fails publishing false >>= _).Ensures t s _
    refine ensures_commitReview h (fun hcommit e s' hs' => .inl ⟨hs', .inr ⟨?_, .inr hcommit⟩⟩)
      (fun _ _ h => nomatch h) fun hcommit _ s' hs' => ?_
    · exact fun hboth => nomatch hfinalize.symm.trans hboth.1
    · refine ⟨document, jobId, hreaches, fun h => (nomatch hfinalize.symm.trans h), {}, ?_⟩
      rw [ReviewRequest.savedDocument, if_neg (by simp [hfinalize])]
      exact hs'
  · rw [hpending hfinalize]
    change ((ReviewExports.finish fails fuel exporting _ 0) >>= fun d =>
      ReviewExports.commitReview fails publishing true >>= fun _ => _).Ensures t s _
    have hsuggestions := @suggestions_review s₀.committed request.documentId jobId
      document.withNextVersion (request.decideListed s₀.clock) s₀.keys .accepted
    have hreaches : (exporting = true → Exports fails (Rows.suggestions
        (Rows.review s₀.committed (request.decideListed s₀.clock) request.documentId
          document.withNextVersion) s₀.keys jobId .accepted)) →
        request.Reaches fails exporting s₀ document jobId := fun hexports =>
      { hsavable with
        getDocument := hget, incrementVersion := hincrement, updateSuggestions := hupdate
        countPending := hcount, exports := fun _ h => hsuggestions ▸ hexports h }
    -- what the export has committed has the next version, without it nothing is committed yet
    have hafter : ∀ committed, committed = afterExport exporting s₀.committed
          (Rows.review s₀.committed (request.decideListed s₀.clock) request.documentId
            document.withNextVersion) request.documentId document.withNextVersion →
        request.Reaches fails exporting s₀ document jobId →
        fails .flushStatus = true ∨ fails .commitReview = true →
        request.Failed fails exporting publishing s₀ committed := by
      rintro committed rfl hreaches hlate
      cases exporting
      case false => exact .inl ⟨rfl, .inr ⟨fun h => (nomatch h.2), hlate⟩⟩
      case true =>
        refine .inr ⟨?_, hfinalize, hlate.elim .inl fun h => .inr (.inl h), _, _, hreaches⟩
        rw [afterExport, if_pos rfl, Rows.update_review]
        exact hchanged _ rfl
    refine ensures_finish h Rows.review_document hsavable.status hsavable.job hfuel
      (fun hasked hnot e s' hs' => .inl ⟨hs', .inl ?_⟩)
      (fun hexports hflush e s' hs' => hafter _ hs' (hreaches hexports) (.inl hflush))
      fun hexports hflush basis s₁ s' hs₁ hs' => ?_
    · rintro ⟨document', jobId', hreaches'⟩
      obtain rfl := Option.some.inj (hsavable.found.symm.trans hreaches'.found)
      obtain rfl := Option.some.inj (hsavable.job.symm.trans hreaches'.job)
      exact hnot (hsuggestions ▸ hreaches'.exports hfinalize hasked)
    · rw [Rows.update_review] at hs'
      have hnext : ((document.withNextVersion.exportedIf exporting).withStatus .ready
          basis).reviewVersion = document.reviewVersion + 1 := exportedIf_reviewVersion _ _
      refine ensures_commitReview hs' (fun hcommit e s'' hs'' => ?_)
        (fun hcommit hpublishing _ howner e s'' hs'' => ?_) fun hcommit howner s'' hs'' => ?_
      · exact hafter _ (hs''.trans hs₁) (hreaches hexports) (.inr hcommit)
      · refine .inr ⟨?_, hfinalize, .inr (.inr ⟨hpublishing, howner⟩), _, _, hreaches hexports⟩
        rw [hs'']
        exact hchanged _ hnext
      · refine ⟨document, jobId, hreaches hexports, fun _ hlate => ?_, basis, ?_⟩
        · rcases hlate with hlate | hlate | ⟨hpublishing, hlate⟩
          · exact nomatch hflush.symm.trans hlate
          · exact nomatch hcommit.symm.trans hlate
          · exact howner ⟨hpublishing, rfl, hlate⟩
        · rw [ReviewRequest.savedDocument, if_pos hfinalize]
          exact hs''

/-- The suggestions that the update of the save finds. -/
theorem exists_decidable_iff {rows : Rows} {id : Uuid} :
    (∃ r : Suggestion, rows.review (fun _ r => r) documentId document (.suggestion id) = some r ∧
      SuggestionRepository.decidable (request.decisions jobId) id r = true) ↔
    id ∈ request.ids ∧ ∃ r : Suggestion, rows (.suggestion id) = some r ∧ r.status = .pending ∧
      r.documentId = request.documentId ∧ r.analysisJobId = jobId := by
  rw [Rows.review_suggestion, Option.map_id']
  constructor
  · rintro ⟨r, hr, hdecidable⟩
    obtain ⟨hdocument, hpending, hid, hjob⟩ := decidable_decisions.mp hdecidable
    exact ⟨hid, r, hr, hpending, hdocument, hjob⟩
  · rintro ⟨hid, r, hr, hpending, hdocument, hjob⟩
    exact ⟨r, hr, decidable_decisions.mpr ⟨hdocument, hpending, hid, hjob⟩⟩

/-- When each listed suggestion can be decided, the update decides the listed ones. -/
theorem mapSuggestions_decisions {rows : Rows} (now : ℕ)
    (hpending : ∀ id ∈ request.ids, ∃ r : Suggestion, rows (.suggestion id) = some r ∧
      r.status = .pending ∧ r.documentId = request.documentId ∧ r.analysisJobId = jobId) :
    (rows.review (fun _ r => r) documentId document).mapSuggestions (fun id r =>
        if SuggestionRepository.decidable (request.decisions jobId) id r = true then
          SuggestionRepository.decided (request.decisions jobId) now id r else r) =
      rows.review (request.decideListed now) documentId document := by
  refine Eq.trans ?_ Rows.mapSuggestions_review
  refine Rows.mapSuggestions_congr fun id r hr => ?_
  rw [Rows.review_suggestion, Option.map_id'] at hr
  rw [decided_decisions, ReviewRequest.decideListed]
  by_cases hid : id ∈ request.ids
  · obtain ⟨r', hr', hstatus, hdocument, hjob⟩ := hpending id hid
    obtain rfl := Option.some.inj (hr.symm.trans hr')
    rw [if_pos hid, if_pos (decidable_decisions.mpr ⟨hdocument, hstatus, hid, hjob⟩)]
  · rw [if_neg hid, if_neg fun h => hid (decidable_decisions.mp h).2.2.1]

/-- A suggestion of the job is pending after the decisions if it was before and is not listed. -/
theorem none_pending_iff {rows : Rows} (now : ℕ) :
    (∀ id (r : Suggestion),
      rows.review (request.decideListed now) documentId document (.suggestion id) = some r →
        r.analysisJobId = jobId → r.status ≠ .pending) ↔
    ∀ id (r : Suggestion), rows (.suggestion id) = some r → r.analysisJobId = jobId →
      r.status = .pending → id ∈ request.ids := by
  constructor
  · intro hnone id r hr hjob hstatus
    by_contra hid
    refine hnone id r ?_ hjob hstatus
    rw [Rows.review_suggestion, hr, Option.map_some, ReviewRequest.decideListed, if_neg hid]
  · intro hlisted id r' hr' hjob
    rw [Rows.review_suggestion] at hr'
    obtain ⟨r, hr, rfl⟩ := Option.map_eq_some_iff.mp hr'
    by_cases hid : id ∈ request.ids
    · rw [ReviewRequest.decideListed, if_pos hid]
      exact decided_not_pending now id r
    · rw [ReviewRequest.decideListed, if_neg hid] at hjob ⊢
      exact fun hstatus => hid (hlisted id r hr hjob hstatus)

/-- **What a save commits**, alone and with any of its calls raising. -/
theorem ensures_atomicReviewSave (fails : Failures) (request : ReviewRequest)
    (exporting publishing : Bool) {fuel : ℕ} (hidle : s.Idle t) (hfuel : s.keys.length < fuel) :
    (ReviewExports.atomicReviewSave fails fuel exporting publishing request.projectId
      request.documentId request.userId request.reviewVersion request.acceptedIds
      request.rejectedIds request.finalize request.editedTexts).Ensures t s
      (ending (fun _ s' => request.Succeeded fails exporting publishing s s'.committed)
        fun _ s' => request.Failed fails exporting publishing s s'.committed) := by
  -- whatever keeps the save from reaching its first commit leaves the committed rows alone
  have hnever : ∀ committed, committed = s.committed →
      (¬ ∃ document jobId, request.Reaches fails exporting s document jobId) →
      request.Failed fails exporting publishing s committed := fun _ heq hnot =>
    .inl ⟨heq, .inl hnot⟩
  refine ensures_unitOfWork (E := fun s' => request.Failed fails exporting publishing s
    s'.committed) ?_ fun e s' he => ⟨he, he⟩
  refine ensures_underReview hidle (fun e hnot => hnever _ rfl ?_) fun hget row jobId hrow => ?_
  · rintro ⟨document, jobId, h⟩
    exact hnot ⟨h.getDocument, document, jobId, h.toUnderReview⟩
  -- the document and the job of any save that reaches its commit are these
  have hsame : ∀ {document : Document} {jobId' : Uuid},
      request.Reaches fails exporting s document jobId' →
      request.Reaches fails exporting s row jobId := by
    intro document jobId' h
    obtain rfl := Option.some.inj (hrow.found.symm.trans h.found)
    obtain rfl := Option.some.inj (hrow.job.symm.trans h.job)
    exact h
  have h₀ : s.Rewrites t (Rows.review s.committed (fun _ r => r) request.documentId row) s := by
    rw [Rows.review_self hrow.found]
    exact Db.Rewrites.refl hidle
  refine ensures_attempt (fun hincrement => hnever _ rfl ?_) fun hincrement => ?_
  · rintro ⟨document, jobId', h⟩
    exact nomatch h.incrementVersion.symm.trans hincrement
  refine ensures_compareAndIncrement h₀ Rows.review_document (fun hstale => hnever _ rfl ?_)
    fun hversion s₁ h₁ => ?_
  · rintro ⟨document, jobId', h⟩
    exact hstale (hsame h).version
  rw [Rows.update_review] at h₁
  refine ensures_attempt (fun hupdate => hnever _ h₁.committed ?_) fun hupdate => ?_
  · rintro ⟨document, jobId', h⟩
    exact nomatch h.updateSuggestions.symm.trans hupdate
  refine ensures_bulkUpdateStatus (request.decisions jobId) h₁
    fun updated s₂ hnodup hmem h₂ => ?_
  have hids : ∀ id, id ∈ updated ↔ id ∈ request.ids ∧ ∃ r : Suggestion,
      s.committed (.suggestion id) = some r ∧ r.status = .pending ∧
        r.documentId = request.documentId ∧ r.analysisJobId = jobId :=
    fun id => (hmem id).trans exists_decidable_iff
  have hlength := length_updated_iff hnodup fun id hid => ((hids id).mp hid).1
  change Prog.Ensures t (if updated.length = (request.decisions jobId).decisions.length then _
    else _) s₂ _
  rw [length_decisions]
  split
  swap
  · rename_i hfewer
    refine hnever _ h₂.committed ?_
    rintro ⟨document, jobId', h⟩
    have hpending := (hsame h).pending
    exact hfewer (hlength.mpr ⟨h.nodup, fun id hid => (hids id).mpr ⟨hid, hpending id hid⟩⟩)
  rename_i hall
  obtain ⟨hnodupIds, hsub⟩ := hlength.mp hall
  have hpending : ∀ id ∈ request.ids, ∃ r : Suggestion, s.committed (.suggestion id) = some r ∧
      r.status = .pending ∧ r.documentId = request.documentId ∧ r.analysisJobId = jobId :=
    fun id hid => ((hids id).mp (hsub hid)).2
  rw [mapSuggestions_decisions s.clock hpending] at h₂
  refine ensures_attempt (fun hcount => hnever _ h₂.committed ?_) fun hcount => ?_
  · rintro ⟨document, jobId', h⟩
    exact nomatch h.countPending.symm.trans hcount
  refine ensures_count h₂ fun n hn => ?_
  have hcomplete := hn.trans (none_pending_iff s.clock)
  by_cases hdone : request.finalize = true → n = 0
  · exact ensures_finishSave hfuel
      { hrow with
        version := hversion, nodup := hnodupIds, pending := hpending
        complete := fun h => hcomplete.mp (hdone h) }
      hget hincrement hupdate hcount h₂ hdone
  · obtain ⟨hfinalize, hn⟩ := Classical.not_imp.mp hdone
    unfold ReviewExports.finishSave
    rw [if_pos hfinalize, if_neg hn]
    refine hnever _ h₂.committed ?_
    rintro ⟨document, jobId', h⟩
    exact hn (hcomplete.mpr ((hsame h).complete hfinalize))

end save

/-! ## Finalising -/

/-- The key of the exported file is not in the row yet. -/
def Document.ExportsAnew (row : Document) : Prop :=
  row.exportedStorageKey ≠ some (row.storageKey ++ ".exported")

/-- The review can be finalised: it goes on, and no suggestion of the job is pending. -/
structure Finalizable (rows : Rows) (projectId documentId : Uuid) (document : Document)
    (jobId : Uuid) : Prop extends UnderReview rows projectId documentId document jobId where
  complete : ∀ id (row : Suggestion), rows (.suggestion id) = some row →
    row.analysisJobId = jobId → row.status ≠ .pending

/-- `finalize_review` gets to the commit of the export. -/
structure FinalizeReaches (fails : Failures) (s : AppDb) (projectId documentId : Uuid)
    (document : Document) (jobId : Uuid) : Prop
    extends Finalizable s.committed projectId documentId document jobId where
  getDocument : fails .getDocument = false
  countPending : fails .countPending = false
  exports : Exports fails (Rows.suggestions s.committed s.keys jobId .accepted)

/-- A call raises after the export has written something, or after the status is committed. -/
def FinalizeTears (fails : Failures) (publishing : Bool) (document : Document) : Prop :=
  if fails .flushStatus = true ∨ fails .commitReview = true then document.ExportsAnew
  else publishing = true ∧ fails .readOwner = true

/-- What is committed after a `finalize_review` that raised. -/
def FinalizeFailed (fails : Failures) (publishing : Bool) (s : AppDb) (projectId documentId : Uuid)
    (committed : Rows) : Prop :=
  (committed = s.committed ∧ ∀ document jobId,
    FinalizeReaches fails s projectId documentId document jobId →
    ¬ FinalizeTears fails publishing document) ∨
  (committed ≠ s.committed ∧ ∃ document jobId,
    FinalizeReaches fails s projectId documentId document jobId ∧
    FinalizeTears fails publishing document)

/-- **What `finalize_review` commits**, alone and with any of its calls raising. -/
theorem ensures_finalizeReview {publishing : Bool} {projectId : Uuid} {fuel : ℕ}
    (hidle : s.Idle t) (hfuel : s.keys.length < fuel) :
    (ReviewExports.finalizeReview fails fuel true publishing projectId documentId).Ensures t s
      (ending (fun _ _ => ∀ document jobId,
          FinalizeReaches fails s projectId documentId document jobId →
          ¬ FinalizeTears fails publishing document)
        fun _ s' => FinalizeFailed fails publishing s projectId documentId s'.committed) := by
  refine ensures_unitOfWork (E := fun s' => FinalizeFailed fails publishing s projectId documentId
    s'.committed) ?_ fun e s' he => ⟨he, he⟩
  refine ensures_underReview hidle (fun e hnot => .inl ⟨rfl, fun document jobId h => ?_⟩)
    fun hget row jobId hrow => ?_
  · exact absurd ⟨h.getDocument, document, jobId, h.toUnderReview⟩ hnot
  have hsame : ∀ {document : Document} {jobId' : Uuid},
      FinalizeReaches fails s projectId documentId document jobId' →
      document = row ∧ FinalizeReaches fails s projectId documentId row jobId := by
    intro document jobId' h
    obtain rfl := Option.some.inj (h.found.symm.trans hrow.found)
    obtain rfl := Option.some.inj (h.job.symm.trans hrow.job)
    exact ⟨rfl, h⟩
  -- whatever keeps the export from its commit leaves the committed rows alone
  have hnever : ∀ committed, committed = s.committed →
      ¬ FinalizeReaches fails s projectId documentId row jobId →
      FinalizeFailed fails publishing s projectId documentId committed := fun _ heq hnot =>
    .inl ⟨heq, fun _ _ h => absurd (hsame h).2 hnot⟩
  refine ensures_attempt (fun hcount => hnever _ rfl fun h => ?_) fun hcount => ?_
  · exact nomatch h.countPending.symm.trans hcount
  refine ensures_count (Db.Rewrites.refl hidle) fun n hn => ?_
  by_cases hzero : n = 0
  swap
  · rw [if_neg hzero]
    exact hnever _ rfl fun h => hzero (hn.mpr h.complete)
  rw [if_pos hzero]
  have hreaches : Exports fails (Rows.suggestions s.committed s.keys jobId .accepted) →
      FinalizeReaches fails s projectId documentId row jobId := fun hexports =>
    { hrow with
      complete := hn.mp hzero, getDocument := hget, countPending := hcount, exports := hexports }
  have htears : FinalizeTears fails publishing row → ∀ committed, committed ≠ s.committed →
      FinalizeReaches fails s projectId documentId row jobId →
      FinalizeFailed fails publishing s projectId documentId committed := fun htears _ hne hreaches =>
    .inr ⟨hne, row, jobId, hreaches, htears⟩
  have hafter : ∀ committed, committed = afterExport true s.committed s.committed documentId row →
      FinalizeReaches fails s projectId documentId row jobId →
      fails .flushStatus = true ∨ fails .commitReview = true →
      FinalizeFailed fails publishing s projectId documentId committed := by
    rintro committed rfl hreaches hlate
    rw [afterExport, if_pos rfl]
    by_cases hanew : row.ExportsAnew
    · refine htears ?_ _ (fun heq => hanew ?_) hreaches
      · rwa [FinalizeTears, if_pos hlate]
      · have hkey := congrFun heq (.document documentId)
        rw [Function.update_self, hrow.found, Option.some.injEq] at hkey
        exact (congrArg Document.exportedStorageKey hkey).symm
    · refine .inl ⟨?_, fun document jobId' h htorn => ?_⟩
      · have hkept : row.exported = row := by
          rw [Document.exported, Document.withExportedKey, ← not_not.mp hanew]
        rw [hkept, ← hrow.found, Function.update_eq_self]
      · rw [(hsame h).1, FinalizeTears, if_pos hlate] at htorn
        exact hanew htorn
  refine ensures_finish (Db.Rewrites.refl hidle) hrow.found hrow.status hrow.job hfuel
    (fun _ hnot e s' hs' => hnever _ hs' fun h => hnot h.exports)
    (fun hexports hflush e s' hs' => hafter _ hs' (hreaches (hexports rfl)) (.inl hflush))
    fun hexports hflush basis s₁ s' hs₁ hs' => ?_
  refine ensures_commitReview hs' (fun hcommit e s'' hs'' => ?_)
    (fun hcommit hpublishing _ howner e s'' hs'' => ?_) fun hcommit howner s'' hs'' => ?_
  · exact hafter _ (hs''.trans hs₁) (hreaches (hexports rfl)) (.inr hcommit)
  · refine htears ?_ _ (fun heq => ?_) (hreaches (hexports rfl))
    · rw [FinalizeTears, if_neg (by simp [hflush, hcommit])]
      exact ⟨hpublishing, howner⟩
    · have hstatus := congrFun (hs''.symm.trans heq) (.document documentId)
      rw [Function.update_self, hrow.found, Option.some.injEq] at hstatus
      have hready := congrArg Document.status hstatus
      rw [hrow.status] at hready
      cases hready
  · intro document jobId' h htorn
    rw [FinalizeTears, if_neg (by simp [hflush, hcommit])] at htorn
    exact howner ⟨htorn.1, rfl, htorn.2⟩

/-! ## Reviews end -/

section sends

instance : AllowsTransaction (Stmt.Immediate : AppStmt → Prop) where
  reads h := by
    cases h <;> exact fun _ h => nomatch h
  commit _ h := nomatch h
  rollback _ h := nomatch h

/-- An update waits for no message. -/
theorem immediate_update {k : Key} {p : Row k → Bool} {f : Row k → Row k} :
    (Stmt.update k p f : AppStmt).Immediate := fun _ h => nomatch h

/-- A call that may raise sends what its body sends. -/
theorem sends_attempt {P : AppStmt → Prop} {call : ReviewCall} {e : DomainError}
    {body : Session α} (h : body.Sends P) : (ReviewExports.attempt fails call e body).Sends P := by
  unfold ReviewExports.attempt
  split
  · trivial
  · exact h

/-- A unit of work that may raise sends what its body sends. -/
theorem sends_unitOfWork {P : AppStmt → Prop} [AllowsTransaction P] {body : Session α}
    (h : body.Sends P) : (ReviewExports.unitOfWork fails body).Sends P :=
  h.tryCatch fun _ => (sends_attempt sends_rollback).bind fun _ => trivial

/-- Reading pages reads. -/
theorem sends_readPages {P : AppStmt → Prop} [AllowsReads P] {jobId : Uuid} :
    ∀ fuel page, (ReviewExports.readPages fails jobId fuel page).Sends P
  | 0, _ => trivial
  | fuel + 1, page => by
      have hpage : (SuggestionRepository.listByAnalysisJobAndStatusPage jobId .accepted
          ReviewExports.exportPageSize (page * ReviewExports.exportPageSize)).Sends P :=
        Prog.Sends.bind (sends_select _) fun _ => trivial
      refine Prog.Sends.bind (sends_attempt hpage) fun rows => ?_
      split
      · trivial
      · exact Prog.Sends.bind (sends_readPages fuel (page + 1)) fun _ => trivial

variable {document : Loaded Document} {fuel : ℕ}

/-- An export waits for no message. -/
theorem immediate_runExport :
    (ReviewExports.runExport fails fuel document).Sends Stmt.Immediate := by
  refine Prog.Sends.tryCatch (Prog.Sends.bind (Prog.Sends.bind (sends_attempt trivial) fun _ =>
    Prog.Sends.bind (sends_unitOfWork ?_) fun _ => sends_attempt trivial) fun _ =>
      Prog.Sends.bind (sends_attempt trivial) fun _ => sends_unitOfWork ?_) fun _ => trivial
  · unfold ReviewExports.iterAcceptedChangesPages
    split
    · trivial
    · exact sends_readPages fuel 0
  · refine Prog.Sends.bind (sends_attempt ?_) fun _ =>
      (sends_attempt sends_commit).bind fun _ => trivial
    unfold DocumentRepository.updateExportedKey
    split
    · trivial
    · exact (sends_update immediate_update).bind fun o => (sends_flushed o).bind fun _ => trivial

/-- Neither does the end of a review. -/
theorem immediate_finish {exporting : Bool} {pendingCount : ℕ} :
    (ReviewExports.finish fails fuel exporting document pendingCount).Sends Stmt.Immediate := by
  refine Prog.Sends.bind ?_ fun _ => sends_attempt (sends_finishReview immediate_update)
  unfold ReviewExports.exportIfAsked
  split
  · exact immediate_runExport
  · trivial

/-- The last commit and its events end the transaction. -/
theorem sends_commitReview {P : AppStmt → Prop} [AllowsTransaction P] {publishing changed : Bool} :
    (ReviewExports.commitReview fails publishing changed).Sends P := by
  refine (sends_attempt sends_commit).bind fun _ => ?_
  split
  · exact sends_attempt trivial
  · trivial

/-- A save waits for no message. -/
theorem immediate_atomicReviewSave (fails : Failures) (fuel : ℕ) (request : ReviewRequest)
    (exporting publishing : Bool) :
    (ReviewExports.atomicReviewSave fails fuel exporting publishing request.projectId
      request.documentId request.userId request.reviewVersion request.acceptedIds
      request.rejectedIds request.finalize request.editedTexts).Sends Stmt.Immediate := by
  refine sends_unitOfWork (Prog.Sends.bind (sends_attempt (sends_getDocumentOrRaise _ _))
    fun _ => sends_assertAwaitingApproval fun _ => sends_assertHasActiveJob fun _ _ =>
      Prog.Sends.bind (sends_attempt (sends_compareAndIncrement immediate_update)) fun found => ?_)
  split
  · trivial
  refine Prog.Sends.bind (sends_attempt (sends_bulkUpdateStatus fun _ _ => immediate_update))
    fun updated => ?_
  split
  swap
  · trivial
  refine Prog.Sends.bind (sends_attempt (sends_count _ _)) fun pending => ?_
  refine Prog.Sends.bind ?_ fun _ => sends_commitReview.bind fun _ => trivial
  split
  · split
    · exact immediate_finish
    · trivial
  · trivial

/-- Neither does a finalization. -/
theorem immediate_finalizeReview (fails : Failures) (fuel : ℕ) (exporting publishing : Bool)
    (projectId documentId : Uuid) :
    (ReviewExports.finalizeReview fails fuel exporting publishing projectId documentId).Sends
      Stmt.Immediate := by
  refine sends_unitOfWork (Prog.Sends.bind (sends_attempt (sends_getDocumentOrRaise _ _))
    fun _ => sends_assertAwaitingApproval fun _ => sends_assertHasActiveJob fun _ _ =>
      Prog.Sends.bind (sends_attempt (sends_count _ _)) fun pending => ?_)
  split
  · exact immediate_finish.bind fun _ => sends_commitReview.bind fun _ => trivial
  · trivial

end sends

end SyncBack
