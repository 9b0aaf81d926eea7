import SyncBack.Properties.AtomicReviews

/-!
# Reviews that raise

A review with an export is not one transaction: the export commits what the review has done so far.
A review that raises leaves the committed rows as they were unless it raises after that; `Torn` says
exactly when. The calls that can raise are given by `fails`.
-/

namespace SyncBack

open Txn

/-- The two operations that finish a review, each with an export. -/
inductive ReviewOperation where
  | save (request : ReviewRequest)
  | finalize (projectId documentId : Uuid)

namespace ReviewOperation

variable (fails : Failures) (fuel : ℕ) (publishing : Bool)

/-- The program of the operation. -/
def program : ReviewOperation → Session Unit
  | save request => do
      let _ ← ReviewExports.atomicReviewSave fails fuel true publishing request.projectId
        request.documentId request.userId request.reviewVersion request.acceptedIds
        request.rejectedIds request.finalize request.editedTexts
      pure ()
  | finalize projectId documentId => do
      let _ ← ReviewExports.finalizeReview fails fuel true publishing projectId documentId
      pure ()

/-- **The export commits something, and a call after it raises.** A save always has something to
commit, `finalize_review` at most the key of the exported file. -/
def Torn (s : AppDb) : ReviewOperation → Prop
  | save request => request.finalize = true ∧ LateFailure fails publishing ∧
      ∃ document jobId, request.Reaches fails true s document jobId
  | finalize projectId documentId => ∃ document jobId,
      FinalizeReaches fails s projectId documentId document jobId ∧
        FinalizeTears fails publishing document

/-- The program of a review waits for no message. -/
theorem immediate_program (op : ReviewOperation) :
    (op.program fails fuel publishing).Sends Stmt.Immediate := by
  cases op with
  | save request =>
      exact (immediate_atomicReviewSave fails fuel request true publishing).bind fun _ => trivial
  | finalize projectId documentId =>
      exact (immediate_finalizeReview fails fuel true publishing projectId documentId).bind
        fun _ => trivial

variable {fuel} {t : Process} {s : AppDb}

/-- An operation that raises has committed nothing, or is torn; an operation that is torn raises. -/
theorem ensures_program (op : ReviewOperation) (hidle : s.Idle t) (hfuel : s.keys.length < fuel) :
    (op.program fails fuel publishing).Ensures t s
      (ending (fun _ _ => ¬ op.Torn fails publishing s) fun _ s' =>
        (s'.committed = s.committed ∧ ¬ op.Torn fails publishing s) ∨
          (s'.committed ≠ s.committed ∧ op.Torn fails publishing s)) := by
  cases op with
  | save request =>
      refine Prog.Ensures.bind (ensures_atomicReviewSave fails request true publishing hidle
        hfuel) (fun _ s' hdone => ?_)
        fun _ s' hfailed => ?_
      · obtain ⟨-, -, -, hcalm, -⟩ := hdone
        exact fun htorn => hcalm htorn.1 htorn.2.1
      · rcases hfailed with ⟨hsame, hnot⟩ | ⟨hchanged, hfinalize, hlate, hreaches⟩
        · refine .inl ⟨hsame, fun htorn => ?_⟩
          rcases hnot with hnot | ⟨hnot, -⟩
          · exact hnot htorn.2.2
          · exact hnot ⟨htorn.1, rfl⟩
        · exact .inr ⟨hchanged, hfinalize, hlate, hreaches⟩
  | finalize projectId documentId =>
      refine Prog.Ensures.bind (ensures_finalizeReview hidle hfuel) (fun _ s' hcalm => ?_)
        fun _ s' hfailed => ?_
      · rintro ⟨document, jobId, hreaches, htears⟩
        exact hcalm document jobId hreaches htears
      · rcases hfailed with ⟨hsame, hcalm⟩ | ⟨hchanged, htorn⟩
        · refine .inl ⟨hsame, ?_⟩
          rintro ⟨document, jobId, hreaches, htears⟩
          exact hcalm document jobId hreaches htears
        · exact .inr ⟨hchanged, htorn⟩

variable {fails publishing}

/-- **A review that raises leaves the committed rows as they were exactly if it is not torn.** -/
theorem all_or_nothing_iff (op : ReviewOperation) (hquiet : s.Quiet)
    (hfuel : s.keys.length < fuel) :
    (∃ r s', (op.program fails fuel publishing).runAlone t s = some (r, s')) ∧
      ((∀ e s', (op.program fails fuel publishing).runAlone t s = some (.error e, s') →
          s'.committed = s.committed) ↔ ¬ op.Torn fails publishing s) := by
  obtain ⟨r, s', hrun⟩ := (immediate_program fails fuel publishing op).ends_alone (t := t)
    fun t' _ => Db.idle_of_quiet hquiet t'
  have hends := @ensures_program fails fuel publishing t s op (Db.idle_of_quiet hquiet t) hfuel
  refine ⟨⟨r, s', hrun⟩, fun hkept htorn => ?_, fun hcalm e s₁ hrun₁ => ?_⟩
  · rcases r with e | a
    · rcases hends.of_runAlone hrun with ⟨-, hcalm⟩ | ⟨hchanged, -⟩
      · exact hcalm htorn
      · exact hchanged (hkept e s' hrun)
    · exact hends.of_runAlone hrun htorn
  · exact (hends.of_runAlone hrun₁).elim And.left fun h => absurd h.2 hcalm

/-- A failed upload of the exported file leaves everything as it was. -/
theorem failed_upload_undone : ∃ e s', ((save acceptOne).program (fun call => call = .upload) 3
      true).runAlone 0 oneSuggestion = some (.error e, s') ∧
    s'.committed = oneSuggestion.committed := by
  have hraises : (((save acceptOne).program (fun call => call = .upload) 3 true).runAlone 0
      oneSuggestion).any (fun a => !a.1.isOk) = true := by decide +kernel
  obtain ⟨⟨r, s'⟩, hrun, hr⟩ := (Option.any_eq_true _ _).mp hraises
  rcases r with e | a
  · have hcalm : ¬ (save acceptOne).Torn (fun call => call = .upload) true oneSuggestion := by
      rintro ⟨-, -, document, jobId, hreaches⟩
      exact nomatch (hreaches.exports rfl rfl).upload
    exact ⟨e, s', hrun, ((save acceptOne).all_or_nothing_iff (fun _ => rfl) (by decide)).2.mpr
      hcalm e s' hrun⟩
  · cases hr

/-- A failure of the last commit leaves the decision, the version and the key of the exported file
behind, and the document still awaits approval. -/
theorem last_commit_tears : ¬ ∀ (op : ReviewOperation) (fails : Failures) (fuel : ℕ)
    (publishing : Bool) (t : Process) (s : AppDb), s.Quiet → s.keys.length < fuel → ∀ e s',
    (op.program fails fuel publishing).runAlone t s = some (.error e, s') →
      s'.committed = s.committed := by
  intro hkept
  have hraises : (((save acceptOne).program (fun call => call = .commitReview) 3 true).runAlone 0
      oneSuggestion).any (fun a => !a.1.isOk &&
        (a.2.committed (.document (9, 0))).any fun row : Document =>
          row.reviewVersion = 1 && row.status = .awaitingApproval) = true := by decide +kernel
  obtain ⟨⟨r, s'⟩, hrun, hr⟩ := (Option.any_eq_true _ _).mp hraises
  rw [Bool.and_eq_true] at hr
  rcases r with e | a
  · rw [hkept _ _ _ _ _ _ (fun _ => rfl) (by decide) e s' hrun] at hr
    exact absurd hr.2 (by decide)
  · cases hr.1

end ReviewOperation

end SyncBack
