import SyncBack.Application.Statements

/-!
# Rules for sessions

The rules of the program logic for the forms that every session has: an exception rolls back, the
end of a session discards what was not committed, and the answer of a statement may be an
exception.
-/

namespace SyncBack

open Txn Session Contract

variable {R : Contract Process Key Row Message} {t : Process} {α ρ : Type} {P : AppDb → Prop}
  {Q Q' : Except DomainError α → AppDb → Prop}

/-- Statements that only read keep a stable assertion. -/
theorem triple_reads {p : Session α} (h : p.Sends Reads) (hst : R.Stable t P) :
    R.Triple t p P fun _ => P := by
  refine Triple.of_sends hst (fun f hf s hi hp _ b s' he => ?_) h
  have hsame : s' = s := by
    cases hf <;> exact (Prod.mk.inj (Option.some.inj he)).2.symm
  subst hsame
  exact ⟨hi, R.guar_refl t _ hi, hp⟩

/-- A run that belongs to another worker by now writes nothing. -/
theorem triple_lostRun {jobId sourceId : Uuid} :
    R.Triple t (do
      rollback
      let stored ← AnalysisJobSourceRepository.getCompletedCount jobId sourceId
      match stored with
      | some count => pure (.ok count)
      | none => pure .busy : Session SourceOutcome) P fun _ _ => True := by
  refine Triple.rollback (Stable.const True) (fun _ _ _ => trivial)
    ((triple_reads ?_ (Stable.const True)).mono (fun _ _ _ => trivial) fun _ _ _ _ => trivial)
  refine (sends_getCompletedCount _ _).bind fun stored => ?_
  cases stored <;> trivial

/-- Loading a document. -/
theorem triple_getDocument {documentId : Uuid} {A : Option (Loaded Document) → AppDb → Prop}
    (hst : ∀ found, R.Stable t (A found))
    (hread : ∀ s, R.inv s → P s →
      A ((s.read t (.document documentId)).map (Loaded.mk documentId)) s) :
    R.Triple t (DocumentRepository.getById documentId) P (ending A fun _ _ => True) :=
  Triple.get (A := fun row => A (row.map (Loaded.mk documentId))) (fun _ => hst _) hread
    fun _ _ _ h => h

/-- Loading a document and checking its project. -/
theorem triple_getDocumentOrRaise {projectId documentId : Uuid} {A : Loaded Document → AppDb → Prop}
    (hst : ∀ document, R.Stable t (A document))
    (hread : ∀ s row, R.inv s → P s → s.read t (.document documentId) = some row →
      A ⟨documentId, row⟩ s) :
    R.Triple t (getDocumentOrRaise projectId documentId) P (ending A fun _ _ => True) := by
  refine Triple.bind (triple_getDocument
    (A := fun found s => ∀ document, found = some document → A document s) ?_ ?_)
    (fun found => ?_) fun _ _ _ _ => trivial
  · exact fun found => Stable.all fun document => Stable.all fun _ => hst document
  · rintro s hi hp document hfound
    obtain ⟨row, hrow, rfl⟩ := Option.map_eq_some_iff.mp hfound
    exact hread s row hi hp hrow
  · rcases found with _ | document
    · exact fun _ _ _ => trivial
    · dsimp only
      split
      · exact fun s _ h => h document rfl
      · exact fun _ _ _ => trivial

/-- An update by primary key, as a flush sends it: a missing row raises. -/
theorem triple_flush {k : Key} {p : Row k → Bool} {f : Row k → Row k} {x : ρ} {A : AppDb → Prop}
    (hst : R.Stable t A)
    (hdone : ∀ s r, R.inv s → P s → R.allowed t (.update k p f) s → s.lockedByOther t k = false →
      s.read t k = some r → p r = true → s.uniqueness t k (f r) = .free →
      R.inv (s.write t k (some (f r))) ∧ R.guar t s (s.write t k (some (f r))) ∧
        A (s.write t k (some (f r)))) :
    R.Triple t (update k p f >>= fun o => flushed o >>= fun _ => (pure x : Session ρ)) P
      (ending (fun a s => a = x ∧ A s) fun _ _ => True) := by
  refine Triple.update (A := fun o s => ∀ row, o = .updated row → A s) ?_ ?_ ?_ ?_ ?_
  · exact fun o => Stable.all fun row => Stable.all fun _ => hst
  · rintro s - - - row ⟨⟩
  · rintro s r - - - - - row ⟨⟩
  · intro s r hi hp hal hfree hread hpr huniq
    obtain ⟨hinv, hguar, ha⟩ := hdone s r hi hp hal hfree hread hpr huniq
    exact ⟨hinv, hguar, fun _ _ => ha⟩
  · rintro (_ | _ | row)
    · exact fun _ _ _ => trivial
    · exact fun _ _ _ => trivial
    · exact fun s _ h => ⟨rfl, h row rfl⟩

/-- An update by primary key of a document that stands. -/
theorem triple_flushDocument {id : Uuid} {f : Document → Document} {x : ρ} {A : AppDb → Prop}
    (hst : R.Stable t A) (hrow : ∀ s, R.inv s → P s → ∃ r : Document, s.read t (.document id) = some r)
    (hdone : ∀ s r, R.inv s → P s → R.allowed t (.update (.document id) (fun _ => true) f) s →
      s.lockedByOther t (.document id) = false → s.read t (.document id) = some r →
      s.uniqueness t (.document id) (f r) = .free →
      R.inv (s.write t (.document id) (some (f r))) ∧
        R.guar t s (s.write t (.document id) (some (f r))) ∧
          A (s.write t (.document id) (some (f r)))) :
    R.Triple t (update (.document id) (fun _ => true) f >>= fun o => flushed o >>= fun _ =>
      (pure x : Session ρ)) P (ending (fun a s => a = x ∧ A s) fun _ _ => False) := by
  refine Triple.update (A := fun o s => ∃ row, o = .updated row ∧ A s) ?_ ?_ ?_ ?_ ?_
  · exact fun o => Stable.exists_ fun row => (Stable.const _).and hst
  · intro s hi hp hmiss
    obtain ⟨r, hr⟩ := hrow s hi hp
    cases hmiss r hr
  · intro s r _ _ _ _ huniq
    rw [Db.uniqueness_of_not_clash fun _ _ => rfl] at huniq
    cases huniq
  · intro s r hi hp hal hfree hread _ huniq
    obtain ⟨hinv, hguar, ha⟩ := hdone s r hi hp hal hfree hread huniq
    exact ⟨hinv, hguar, _, rfl, ha⟩
  · rintro (_ | _ | row) s - ⟨row', h, ha⟩
    · cases h
    · cases h
    · exact ⟨rfl, ha⟩

/-- `async with uow:` rolls back when the body raises. -/
theorem triple_withUow {body : Session α} (h : R.Triple t body P Q)
    (hst : ∀ e, R.Stable t (Q' (.error e))) (hok : ∀ a s, R.inv s → Q (.ok a) s → Q' (.ok a) s)
    (herror : ∀ e s, R.inv s → Q (.error e) s → Q' (.error e) (s.rollback t)) :
    R.Triple t (withUow body) P Q' :=
  h.tryCatch hok fun e => Triple.rollback (hst e) (herror e) fun _ _ h => h

/-- A session rolls back at its end, however it ends. -/
theorem triple_closing {body : Session α} {E : Except DomainError α → AppDb → Prop}
    (h : R.Triple t body P Q) (hst : ∀ r, R.Stable t (E r))
    (hend : ∀ r s, R.inv s → Q r s → E r (s.rollback t)) : R.Triple t (closing body) P E := by
  have hbody : R.Triple t (withUow body) P
      (ending (fun a => Q (.ok a)) fun e => E (.error e)) :=
    triple_withUow h (fun e => hst _) (fun _ _ _ h => h) fun e => hend _
  exact hbody.bind (fun a => Triple.rollback (hst _) (hend _) fun _ _ h => h) fun _ _ _ h => h

/-- The result of a session is dropped. -/
theorem triple_request {body : Session α} {Q₂ : Except DomainError Unit → AppDb → Prop}
    (h : R.Triple t (closing body) P Q) (hok : ∀ a s, R.inv s → Q (.ok a) s → Q₂ (.ok ()) s)
    (herror : ∀ e s, R.inv s → Q (.error e) s → Q₂ (.error e) s) :
    R.Triple t (request body) P Q₂ :=
  h.bind (fun a => fun s hi => hok a s hi) herror

/-- A check that fails raises; one that passes says something about the loaded document. -/
theorem triple_assertAwaitingApproval {document : Loaded Document} {rest : Unit → Session α}
    (herror : ∀ e s, R.inv s → P s → Q (.error e) s)
    (h : document.row.status = .awaitingApproval → R.Triple t (rest ()) P Q) :
    R.Triple t (SuggestionService.assertAwaitingApproval document >>= rest) P Q := by
  unfold SuggestionService.assertAwaitingApproval
  split
  · rename_i hst
    exact h (by simpa [DocumentLifecycle.canReview] using hst)
  · exact fun s hi hp => herror _ s hi hp

/-- After the check the decisions of the document may be reset. -/
theorem triple_assertDecisionsResettable {document : Loaded Document} {rest : Unit → Session α}
    (herror : ∀ e s, R.inv s → P s → Q (.error e) s)
    (h : DocumentLifecycle.canResetReview document.row.status = true → R.Triple t (rest ()) P Q) :
    R.Triple t (SuggestionService.assertDecisionsResettable document >>= rest) P Q := by
  unfold SuggestionService.assertDecisionsResettable
  split
  · rename_i hst
    exact h hst
  · exact fun s hi hp => herror _ s hi hp

/-- After the check the document has a current job. -/
theorem triple_assertHasActiveJob {document : Loaded Document} {rest : Uuid → Session α}
    (herror : ∀ e s, R.inv s → P s → Q (.error e) s)
    (h : ∀ jobId, document.row.currentAnalysisJobId = some jobId → R.Triple t (rest jobId) P Q) :
    R.Triple t (SuggestionService.assertHasActiveJob document >>= rest) P Q := by
  unfold SuggestionService.assertHasActiveJob
  split
  · rename_i jobId hjob
    exact h jobId hjob
  · exact fun s hi hp => herror _ s hi hp

end SyncBack
