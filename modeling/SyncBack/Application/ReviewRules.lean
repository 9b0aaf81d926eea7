import SyncBack.Application.SerialRules
import SyncBack.Pagination.Offsets
import SyncBack.Services.ReviewExports

/-!
# Rules for reviews that run alone

What each statement of a review does to the rows that its session sees. `Db.Rewrites` carries these
rows along; nothing else of the database matters until the commit.
-/

namespace SyncBack

open Txn Session

/-! ## Rows under their keys -/

/-- The rows of all tables. -/
abbrev Rows : Type := (k : Key) → Option (Row k)

namespace Rows

/-- Change the suggestions. -/
def mapSuggestions (g : Uuid → Suggestion → Suggestion) (rows : Rows) : Rows
  | .suggestion id => (rows (.suggestion id)).map (g id)
  | k => rows k

/-- A suggestion is mapped. -/
@[simp] theorem mapSuggestions_suggestion (g : Uuid → Suggestion → Suggestion) (rows : Rows)
    (id : Uuid) : rows.mapSuggestions g (.suggestion id) = (rows (.suggestion id)).map (g id) := rfl

/-- A document is not. -/
@[simp] theorem mapSuggestions_document (g : Uuid → Suggestion → Suggestion) (rows : Rows)
    (id : Uuid) : rows.mapSuggestions g (.document id) = rows (.document id) := rfl

/-- Neither is a row that the mapping leaves. -/
theorem mapSuggestions_of_ne {g : Uuid → Suggestion → Suggestion} {rows : Rows} {k : Key}
    (h : ∀ id row, k = .suggestion id → rows (.suggestion id) = some row → g id row = row) :
    rows.mapSuggestions g k = rows k := by
  cases k
  case suggestion id =>
    rw [mapSuggestions_suggestion]
    rcases hrow : rows (.suggestion id) with _ | row
    · rfl
    · rw [Option.map_some, h id row rfl hrow]
  all_goals rfl

/-- Nothing changes where nothing is changed. -/
theorem mapSuggestions_id {g : Uuid → Suggestion → Suggestion} {rows : Rows}
    (h : ∀ id row, rows (.suggestion id) = some row → g id row = row) :
    rows.mapSuggestions g = rows :=
  funext fun _ => mapSuggestions_of_ne fun id row _ => h id row

/-- Changing the suggestions goes by the suggestions that are there. -/
theorem mapSuggestions_congr {g g' : Uuid → Suggestion → Suggestion} {rows : Rows}
    (h : ∀ id row, rows (.suggestion id) = some row → g id row = g' id row) :
    rows.mapSuggestions g = rows.mapSuggestions g' := by
  funext k
  cases k
  case suggestion id =>
    rw [mapSuggestions_suggestion, mapSuggestions_suggestion]
    rcases hrow : rows (.suggestion id) with _ | row
    · rfl
    · rw [Option.map_some, Option.map_some, h id row hrow]
  all_goals rfl

/-- The rows with another version of a document and its suggestions changed. -/
def review (rows : Rows) (g : Uuid → Suggestion → Suggestion) (documentId : Uuid)
    (document : Document) : Rows :=
  Function.update (rows.mapSuggestions g) (.document documentId) (some document)

section review

variable {rows : Rows} {g : Uuid → Suggestion → Suggestion} {documentId : Uuid}
  {document : Document}

/-- The document of a review is written. -/
@[simp] theorem review_document :
    rows.review g documentId document (.document documentId) = some document :=
  Function.update_self _ _ _

/-- Its suggestions are mapped. -/
@[simp] theorem review_suggestion (id : Uuid) :
    rows.review g documentId document (.suggestion id) = (rows (.suggestion id)).map (g id) :=
  Function.update_of_ne (by simp) _ _

/-- Other rows are. -/
theorem review_of_ne {k : Key} (h : k ≠ .document documentId) :
    rows.review g documentId document k = rows.mapSuggestions g k :=
  Function.update_of_ne h _ _

/-- A review without a change. -/
theorem review_self (h : rows (.document documentId) = some document) :
    rows.review (fun _ row => row) documentId document = rows := by
  rw [review, mapSuggestions_id fun _ _ _ => rfl, ← h, Function.update_eq_self]

/-- Writing the document again. -/
theorem update_review (document' : Document) :
    Function.update (rows.review g documentId document) (.document documentId) (some document') =
      rows.review g documentId document' :=
  Function.update_idem _ _ _

/-- The suggestions are changed after the document. -/
theorem mapSuggestions_review :
    (rows.review (fun _ row => row) documentId document).mapSuggestions g =
      rows.review g documentId document := by
  funext k
  by_cases hk : k = .document documentId
  · subst hk
    rw [mapSuggestions_document, review_document, review_document]
  · rw [review_of_ne hk]
    cases k
    case suggestion id =>
      rw [mapSuggestions_suggestion, mapSuggestions_suggestion, review_of_ne hk,
        mapSuggestions_suggestion, Option.map_id']
    all_goals exact review_of_ne hk

end review

/-- The suggestions of a job that have a status, in the order of the keys. -/
def suggestions (rows : Rows) (keys : List Key) (jobId : Uuid) (status : SuggestionStatus) :
    List Suggestion :=
  SuggestionRepository.suggestions (keys.filterMap fun k =>
    ((rows k).filter (SuggestionRepository.ofJobAndStatus jobId status k)).map (Sigma.mk k))

/-- There are no more suggestions than keys. -/
theorem length_suggestions_le (rows : Rows) (keys : List Key) (jobId : Uuid)
    (status : SuggestionStatus) : (rows.suggestions keys jobId status).length ≤ keys.length :=
  (List.length_filterMap_le _ _).trans (List.length_filterMap_le _ _)

end Rows

variable {t : Process} {s₀ s : AppDb} {rows : Rows} {α β : Type}
  {Q : Except DomainError β → AppDb → Prop}

/-! ## Reading -/

/-- The suggestions are chosen. -/
theorem ensures_selectIds (h : s₀.Rewrites t rows s) {p : Uuid → Suggestion → Bool}
    {rest : List Uuid → Session β}
    (hrest : ∀ ids, (∀ id, id ∈ ids ↔ ∃ row, rows (.suggestion id) = some row ∧ p id row = true) →
      (rest ids).Ensures t s Q) : (SuggestionRepository.selectIds p >>= rest).Ensures t s Q := by
  refine Prog.Ensures.find (g := fun found => pure (SuggestionRepository.ids found) >>= rest)
    (hrest _ fun id => ?_)
  rw [SuggestionRepository.ids, List.mem_filterMap]
  constructor
  · rintro ⟨⟨k, row⟩, hmem, hid⟩
    cases k
    case suggestion id' =>
      cases hid
      obtain ⟨hread, hp⟩ := Db.mem_select.mp hmem
      exact ⟨row, h.read ▸ hread, hp⟩
    all_goals cases hid
  · rintro ⟨row, hrow, hp⟩
    refine ⟨⟨.suggestion id, row⟩, Db.mem_select.mpr ⟨?_, hp⟩, rfl⟩
    rw [h.read]
    exact hrow

/-- Counting suggestions. -/
theorem ensures_count (h : s₀.Rewrites t rows s) {jobId : Uuid} {status : SuggestionStatus}
    {rest : ℕ → Session β}
    (hrest : ∀ n, (n = 0 ↔ ∀ id row, rows (.suggestion id) = some row → row.analysisJobId = jobId →
      row.status ≠ status) → (rest n).Ensures t s Q) :
    (SuggestionRepository.countByAnalysisJobAndStatus jobId status >>= rest).Ensures t s Q := by
  change (SuggestionRepository.selectIds _ >>= fun found => pure found.length >>= rest).Ensures t s Q
  refine ensures_selectIds h fun ids hids => hrest _ ?_
  rw [List.length_eq_zero_iff, List.eq_nil_iff_forall_not_mem]
  constructor
  · intro hnone id row hrow hjob hstatus
    exact hnone id ((hids id).mpr ⟨row, hrow, by simp [hjob, hstatus]⟩)
  · intro hnone id hid
    obtain ⟨row, hrow, hp⟩ := (hids id).mp hid
    simp only [Bool.and_eq_true, decide_eq_true_eq] at hp
    exact hnone id row hrow hp.1 hp.2

/-! ## Rewriting the suggestions -/

section updateRows

variable {p : Uuid → Suggestion → Bool} {f : Uuid → Suggestion → Suggestion}

/-- What the statement makes of a suggestion whose id is among `ids`. -/
def rewriteIn (p : Uuid → Suggestion → Bool) (f : Uuid → Suggestion → Suggestion) (ids : List Uuid)
    (id : Uuid) (row : Suggestion) : Suggestion :=
  if id ∈ ids ∧ p id row = true then f id row else row

/-- **Rewriting the rows of a snapshot one by one**: a row that is rewritten no longer matches, so
that an id counts once. -/
theorem ensures_updateRows (hmoved : ∀ id row, p id (f id row) = false) :
    ∀ (ids : List Uuid) {s : AppDb} {rows : Rows}, s₀.Rewrites t rows s →
      (SuggestionRepository.updateRows p f ids).Ensures t s (ending (fun updated s' =>
        updated.Nodup ∧
        (∀ id, id ∈ updated ↔ id ∈ ids ∧ ∃ row, rows (.suggestion id) = some row ∧ p id row = true) ∧
        s₀.Rewrites t (rows.mapSuggestions (rewriteIn p f ids)) s') fun _ _ => False)
  | [], s, rows, h => by
      have hsame : ∀ id row, rewriteIn p f [] id row = row := fun _ _ =>
        if_neg fun hin => absurd hin.1 List.not_mem_nil
      refine ⟨List.nodup_nil, fun id => by simp, ?_⟩
      rw [Rows.mapSuggestions_id fun id row _ => hsame id row]
      exact h
  | id :: rest, s, rows, h => by
      refine Prog.Ensures.update (g := fun o => matched o >>= fun found =>
        SuggestionRepository.updateRows p f rest >>= fun updated =>
          pure (if found.isSome then id :: updated else updated)) (fun _ _ _ => rfl) ?_ ?_
      · intro hmiss
        change (SuggestionRepository.updateRows p f rest >>= fun updated =>
          (pure updated : Session (List Uuid))).Ensures t s _
        refine Prog.Ensures.bind (ensures_updateRows hmoved rest h) ?_ fun _ _ hfalse => hfalse
        rintro updated s' ⟨hnodup, hmem, hrewrites⟩
        have hmiss' : ∀ row, rows (.suggestion id) = some row → p id row = false := by
          intro row hrow
          exact hmiss row (by rw [h.read]; exact hrow)
        refine ⟨hnodup, fun id' => ?_, ?_⟩
        · rw [hmem id', List.mem_cons]
          constructor
          · rintro ⟨hin, hrow⟩
            exact ⟨.inr hin, hrow⟩
          · rintro ⟨rfl | hin, row, hrow, hp⟩
            · rw [hmiss' row hrow] at hp
              cases hp
            · exact ⟨hin, row, hrow, hp⟩
        · rw [@Rows.mapSuggestions_congr _ (rewriteIn p f rest) _ fun id' row hrow => ?_]
          · exact hrewrites
          · unfold rewriteIn
            by_cases hid : id' = id
            · subst hid
              simp [hmiss' row hrow]
            · simp [hid]
      · intro row hread hp
        have hrow : rows (.suggestion id) = some row := h.read ▸ hread
        have h' := h.write hread (f id row)
        change (SuggestionRepository.updateRows p f rest >>= fun updated =>
          (pure (id :: updated) : Session (List Uuid))).Ensures t _ _
        refine Prog.Ensures.bind (ensures_updateRows hmoved rest h') ?_ fun _ _ hfalse => hfalse
        rintro updated s' ⟨hnodup, hmem, hrewrites⟩
        have hother : ∀ id', id' ≠ id → Function.update rows (.suggestion id) (some (f id row))
            (.suggestion id') = rows (.suggestion id') := fun id' hne =>
          Function.update_of_ne (by simpa using hne) _ _
        have hnotin : id ∉ updated := by
          intro hin
          obtain ⟨-, row', hrow', hp'⟩ := (hmem id).mp hin
          rw [Function.update_self] at hrow'
          cases hrow'
          rw [hmoved] at hp'
          cases hp'
        refine ⟨?_, fun id' => ?_, ?_⟩
        · exact List.nodup_cons.mpr ⟨hnotin, hnodup⟩
        · rw [List.mem_cons, List.mem_cons]
          by_cases hid : id' = id
          · subst hid
            exact ⟨fun _ => ⟨.inl rfl, row, hrow, hp⟩, fun _ => .inl rfl⟩
          · rw [hmem id', hother id' hid]
            simp [hid]
        · have hrows : Rows.mapSuggestions (rewriteIn p f rest)
              (Function.update rows (.suggestion id) (some (f id row))) =
              rows.mapSuggestions (rewriteIn p f (id :: rest)) := by
            funext k
            by_cases hk : k = .suggestion id
            · subst hk
              rw [Rows.mapSuggestions_suggestion, Rows.mapSuggestions_suggestion,
                Function.update_self, hrow]
              simp [rewriteIn, hmoved, hp]
            · have hkept := Function.update_of_ne hk (some (f id row)) rows
              cases k
              case suggestion id' =>
                have hid : id' ≠ id := fun hid => hk (by rw [hid])
                have hsame : rewriteIn p f rest id' = rewriteIn p f (id :: rest) id' := by
                  funext row'
                  simp [rewriteIn, hid]
                rw [Rows.mapSuggestions_suggestion, Rows.mapSuggestions_suggestion, hkept, hsame]
              all_goals exact hkept
          rw [hrows] at hrewrites
          exact hrewrites

/-- A bulk update whose rows do not match again updates each of them once. -/
theorem ensures_updateWhere (hmoved : ∀ id row, p id (f id row) = false)
    (h : s₀.Rewrites t rows s) {rest : List Uuid → Session β}
    (hrest : ∀ updated s', updated.Nodup →
      (∀ id, id ∈ updated ↔ ∃ row, rows (.suggestion id) = some row ∧ p id row = true) →
      s₀.Rewrites t (rows.mapSuggestions fun id row => if p id row = true then f id row else row) s' →
      (rest updated).Ensures t s' Q) :
    (SuggestionRepository.updateWhere p f >>= rest).Ensures t s Q := by
  change (SuggestionRepository.selectIds p >>= fun snapshot =>
    SuggestionRepository.updateRows p f snapshot >>= rest).Ensures t s Q
  refine ensures_selectIds h fun ids hids => ?_
  refine Prog.Ensures.bind (ensures_updateRows hmoved ids h) ?_ fun _ _ hfalse => hfalse.elim
  rintro updated s' ⟨hnodup, hmem, hrewrites⟩
  refine hrest updated s' hnodup (fun id => ?_) ?_
  · rw [hmem id, hids id]
    exact ⟨And.right, fun h => ⟨h, h⟩⟩
  · rw [@Rows.mapSuggestions_congr _ (rewriteIn p f ids) _ fun id row hrow => ?_]
    · exact hrewrites
    · unfold rewriteIn
      by_cases hp : p id row = true
      · rw [if_pos hp, if_pos ⟨(hids id).mpr ⟨row, hrow, hp⟩, hp⟩]
      · rw [if_neg hp, if_neg fun hin => hp hin.2]

end updateRows

/-- A decided suggestion is not decidable. -/
theorem decidable_decided (decisions : ReviewDecisions) (n : ℕ) (id : Uuid) (row : Suggestion) :
    SuggestionRepository.decidable decisions id (SuggestionRepository.decided decisions n id row) =
      false := by
  have hstatus : (SuggestionRepository.decided decisions n id row).status ≠ .pending := by
    unfold SuggestionRepository.decided
    dsimp only
    split <;> simp
  simp [SuggestionRepository.decidable, hstatus]

/-- So do the decisions of a review. -/
theorem ensures_bulkUpdateStatus (decisions : ReviewDecisions) (h : s₀.Rewrites t rows s)
    {rest : ℕ → Session β}
    (hrest : ∀ (updated : List Uuid) s', updated.Nodup →
      (∀ id, id ∈ updated ↔ ∃ row, rows (.suggestion id) = some row ∧
        SuggestionRepository.decidable decisions id row = true) →
      s₀.Rewrites t (rows.mapSuggestions fun id row =>
        if SuggestionRepository.decidable decisions id row = true then
          SuggestionRepository.decided decisions s₀.clock id row else row) s' →
      (rest updated.length).Ensures t s' Q) :
    (SuggestionRepository.bulkUpdateStatus decisions >>= rest).Ensures t s Q := by
  unfold SuggestionRepository.bulkUpdateStatus
  by_cases hnil : decisions.decisions = []
  · rw [if_pos hnil]
    have hnone : ∀ id row, SuggestionRepository.decidable decisions id row = false := by
      simp [SuggestionRepository.decidable, hnil]
    refine hrest [] s List.nodup_nil (by simp [hnone]) ?_
    rw [Rows.mapSuggestions_id fun id row _ => if_neg (by simp [hnone])]
    exact h
  · rw [if_neg hnil]
    refine Prog.Ensures.now (g := fun n =>
      (SuggestionRepository.updateWhere (SuggestionRepository.decidable decisions)
        (SuggestionRepository.decided decisions n) >>= fun updated => pure updated.length) >>= rest) ?_
    rw [Prog.bind_assoc']
    refine ensures_updateWhere (decidable_decided decisions _) h fun updated s' hnodup hmem hs' => ?_
    rw [h.clock] at hs'
    exact hrest updated s' hnodup hmem hs'

/-! ## Rewriting the document -/

section document

variable {documentId : Uuid} {row : Document}

/-- Changing the document by its primary key. -/
theorem ensures_flushDocument (h : s₀.Rewrites t rows s)
    (hrow : rows (.document documentId) = some row) {f : Document → Document} {x : α}
    {rest : α → Session β}
    (hrest : ∀ s', s₀.Rewrites t (Function.update rows (.document documentId) (some (f row))) s' →
      (rest x).Ensures t s' Q) :
    ((update (.document documentId) (fun _ => true) f >>= fun o => flushed o >>= fun _ =>
      (pure x : Session α)) >>= rest).Ensures t s Q := by
  have hread : s.read t (.document documentId) = some row := by
    rw [h.read]
    exact hrow
  refine Prog.Ensures.update (g := fun o => (flushed o >>= fun _ => (pure x : Session α)) >>= rest)
    (fun _ _ _ => rfl) (fun hmiss => ?_) fun row' hread' _ => ?_
  · cases hmiss row hread
  · obtain rfl := Option.some.inj (hread.symm.trans hread')
    exact hrest _ (h.write hread _)

/-- The version is compared and incremented, or the copy was stale. -/
theorem ensures_compareAndIncrement (h : s₀.Rewrites t rows s)
    (hrow : rows (.document documentId) = some row) {version : ℤ}
    {rest : Option (Loaded Document) → Session β}
    (hstale : row.reviewVersion ≠ version → (rest none).Ensures t s Q)
    (hnext : row.reviewVersion = version → ∀ s',
      s₀.Rewrites t (Function.update rows (.document documentId) (some row.withNextVersion)) s' →
      (rest (some ⟨documentId, row.withNextVersion⟩)).Ensures t s' Q) :
    (DocumentRepository.compareAndIncrementReviewVersion ⟨documentId, row⟩ version >>=
      rest).Ensures t s Q := by
  have hread : s.read t (.document documentId) = some row := by
    rw [h.read]
    exact hrow
  refine Prog.Ensures.update (g := fun o => (matched o >>= fun found =>
    pure (found.map fun _ => if row.reviewVersion = version then
      ⟨documentId, row.withNextVersion⟩ else ⟨documentId, row⟩)) >>= rest)
    (k := .document documentId) (fun _ _ _ => rfl) (fun hmiss => ?_) fun row' hread' hp => ?_
  · exact hstale (by simpa using hmiss row hread)
  · obtain rfl := Option.some.inj (hread.symm.trans hread')
    have hversion : row.reviewVersion = version := by simpa using hp
    change (rest (some (if row.reviewVersion = version then _ else _))).Ensures t _ Q
    rw [if_pos hversion]
    exact hnext hversion _ (h.write hread _)

/-- The key of the exported file; a key that stays needs no statement. -/
theorem ensures_updateExportedKey (h : s₀.Rewrites t rows s)
    (hrow : rows (.document documentId) = some row) {exportKey : String}
    {rest : Loaded Document → Session β}
    (hrest : ∀ s', s₀.Rewrites t
        (Function.update rows (.document documentId) (some (row.withExportedKey exportKey))) s' →
      (rest ⟨documentId, row.withExportedKey exportKey⟩).Ensures t s' Q) :
    (DocumentRepository.updateExportedKey ⟨documentId, row⟩ exportKey >>= rest).Ensures t s Q := by
  unfold DocumentRepository.updateExportedKey
  by_cases hkey : some exportKey = row.exportedStorageKey
  · rw [if_pos hkey]
    have hsame : row.withExportedKey exportKey = row := by
      rw [Document.withExportedKey, hkey]
    rw [hsame] at hrest
    refine hrest s ?_
    rw [← hrow, Function.update_eq_self]
    exact h
  · rw [if_neg hkey]
    exact ensures_flushDocument h hrow hrest

/-- The end of a review that awaited approval. -/
theorem ensures_finishReview (h : s₀.Rewrites t rows s)
    (hrow : rows (.document documentId) = some row) (hstatus : row.status = .awaitingApproval)
    {pendingCount : ℕ} {rest : Loaded Document → Session β}
    (hrest : ∀ basis s', s₀.Rewrites t
        (Function.update rows (.document documentId) (some (row.withStatus .ready basis))) s' →
      (rest ⟨documentId, row.withStatus .ready basis⟩).Ensures t s' Q) :
    (SuggestionService.finishReview ⟨documentId, row⟩ pendingCount >>= rest).Ensures t s Q := by
  unfold SuggestionService.finishReview documentTransition DocumentRepository.updateStatus
  have htransition : DocumentLifecycle.transition row.status .ready = some .ready := by
    rw [hstatus]
    rfl
  simp only [htransition]
  rw [Prog.pure_bind', if_neg (by simp [hstatus])]
  exact ensures_flushDocument h hrow (hrest _)

end document

/-! ## Calls that may raise -/

section failures

variable {fails : Failures}

/-- A call raises, or its body runs. -/
theorem ensures_attempt {call : ReviewCall} {e : DomainError} {body : Session α}
    {rest : α → Session β} (hfails : fails call = true → Q (.error e) s)
    (hgoes : fails call = false → (body >>= rest).Ensures t s Q) :
    (ReviewExports.attempt fails call e body >>= rest).Ensures t s Q := by
  unfold ReviewExports.attempt
  by_cases hcall : fails call = true
  · rw [if_pos hcall]
    exact hfails hcall
  · rw [if_neg hcall]
    exact hgoes (by simpa using hcall)

/-- An exception rolls back, or leaves the transaction to the end of the session. -/
theorem ensures_unitOfWork {E : AppDb → Prop} {body : Session β}
    (h : body.Ensures t s (ending (fun b => Q (.ok b)) fun _ => E))
    (hE : ∀ e s', E s' → Q (.error e) s' ∧ Q (.error e) (s'.rollback t)) :
    (ReviewExports.unitOfWork fails body).Ensures t s Q := by
  refine Prog.Ensures.tryCatch (E := fun _ => E) h fun e s' he => ?_
  refine ensures_attempt (fun _ => (hE _ s' he).1) fun _ => ?_
  exact Prog.Ensures.rollback (g := fun _ => throw e) (hE e s' he).2

end failures

/-! ## The pages of accepted changes -/

/-- **The pages together are the accepted changes**, unless a page cannot be read. -/
theorem ensures_readPages {fails : Failures} (h : s₀.Rewrites t rows s) {jobId : Uuid} :
    ∀ fuel page,
      page ≤ (rows.suggestions s₀.keys jobId .accepted).length / ReviewExports.exportPageSize →
      (rows.suggestions s₀.keys jobId .accepted).length / ReviewExports.exportPageSize <
        page + fuel →
      (ReviewExports.readPages fails jobId fuel page).Ensures t s (ending
        (fun changes s' => s' = s ∧
          changes = ((rows.suggestions s₀.keys jobId .accepted).drop
            (page * ReviewExports.exportPageSize)).map Suggestion.toChange ∧
          ∀ q, page ≤ q →
            q ≤ (rows.suggestions s₀.keys jobId .accepted).length / ReviewExports.exportPageSize →
            fails (.readChanges q) = false)
        fun _ s' => s' = s ∧ ∃ q,
          q ≤ (rows.suggestions s₀.keys jobId .accepted).length / ReviewExports.exportPageSize ∧
          fails (.readChanges q) = true)
  | 0, page, hpage, hfuel => by omega
  | fuel + 1, page, hpage, hfuel => by
      refine ensures_attempt (fun hfails => ⟨rfl, page, hpage, hfails⟩) fun hgoes => ?_
      intro found s' hfound
      obtain ⟨rfl, rfl⟩ := Prod.mk.inj (Option.some.inj hfound)
      rw [h.select]
      set accepted := rows.suggestions s₀.keys jobId .accepted
      have hsize : 0 < ReviewExports.exportPageSize := by decide
      change Prog.Ensures t (if (Offsets.slice accepted ReviewExports.exportPageSize
        (page * ReviewExports.exportPageSize)).length < _ then _ else _) s _
      split
      · -- a short page is the last one
        rename_i hlast
        have hwhole := Offsets.slice_of_short hsize hlast
        refine ⟨rfl, congrArg (List.map Suggestion.toChange) hwhole, fun q hq hq' => ?_⟩
        have hend := Offsets.page_of_short hsize hpage hlast
        obtain rfl : q = page := by omega
        exact hgoes
      · rename_i hfull
        refine Prog.Ensures.bind (ensures_readPages h fuel (page + 1)
            (Offsets.next_page hsize hfull) (hfuel.trans_eq (by omega))) ?_ fun _ _ he => he
        rintro changes s' ⟨rfl, rfl, hpages⟩
        have hjoined : (Offsets.slice accepted ReviewExports.exportPageSize
              (page * ReviewExports.exportPageSize)).map Suggestion.toChange ++
              (accepted.drop ((page + 1) * ReviewExports.exportPageSize)).map Suggestion.toChange =
            (accepted.drop (page * ReviewExports.exportPageSize)).map Suggestion.toChange := by
          rw [← List.map_append, Nat.succ_mul, Offsets.slice_append_drop]
        refine ⟨rfl, hjoined, fun q hq hq' => ?_⟩
        rcases hq.eq_or_lt with rfl | hq
        · exact hgoes
        · exact hpages q hq hq'

end SyncBack
