import SyncBack.Application.ProjectOperations
import SyncBack.Txn.Deletion

/-!
# Deleting a document and starting its analysis

`delete_document_by_id` reads the status of the document in one statement and deletes the row by
its id in another, and the condition of the `DELETE` says nothing about the status. Between the two
an analysis can be created and dispatched.

* `document_deleted_when_idle` — a document is never deleted while it is analysed, if every
  `DELETE` of a document finds it as idle as the check before found it;
* `document_deleted_during_analysis` — a run in which one does not.
-/

namespace SyncBack

open Txn Session

/-- The document is not being analysed. -/
def IdleDocument : (k : Key) → Row k → Prop
  | .document _, row => row.status ≠ .inProgress
  | _, _ => True

/-- **A timely deletion**: the document that a `DELETE` is about to take away is not being
analysed, as it is committed now. -/
def deletionTimely : Process → AppStmt → AppDb → Prop
  | t, .delete (.document id) p, s =>
      (s.read t (.document id)).any p = true → documentStatus s id ≠ some .inProgress
  | _, _, _ => True

instance : ∀ (t : Process) (f : AppStmt) (s : AppDb), Decidable (deletionTimely t f s)
  | t, .delete (.document id) p, s => inferInstanceAs (Decidable
      ((s.read t (.document id)).any p = true → documentStatus s id ≠ some .inProgress))
  | _, .delete (.job _) _, _ | _, .delete (.suggestion _) _, _ | _, .delete (.jobSource _ _) _, _
  | _, .delete (.source _) _, _ | _, .delete (.documentSource _ _) _, _ => isTrue trivial
  | _, .get _, _ | _, .find _, _ | _, .insert _ _, _ | _, .update _ _ _, _ | _, .draw, _
  | _, .now, _ | _, .send _, _ | _, .await _, _ | _, .commit, _ | _, .rollback, _ => isTrue trivial

/-- **When a document is not deleted during its analysis.** In a run in which every `DELETE` of a
document is timely, the step that makes a deletion visible finds the document not in progress. -/
theorem document_deleted_when_idle {c₀ c c' : AppConfig} (hstart : ProjectStart c₀)
    (hrun : c₀.Steps deletionTimely c) (hs : c.Step deletionTimely c') {id : Uuid}
    {status : DocumentStatus} (hstatus : documentStatus c.db id = some status)
    (hgone : documentStatus c'.db id = none) : status ≠ .inProgress := by
  have hv : (Contract.ofDeletes IdleDocument deletionTimely).Verified (fun _ _ _ => True) c₀ := by
    refine Contract.verified_ofDeletes hstart.quiet ?_
    rintro t (id | _ | _ | _ | _ | _) p s r row htimely hread hp hrow
    case document =>
      have hne : documentStatus s id ≠ some .inProgress := htimely (by rw [hread]; exact hp)
      rw [documentStatus, hrow] at hne
      exact fun hstatus => hne (congrArg some hstatus)
    all_goals trivial
  obtain ⟨row, hrow, rfl⟩ := Option.map_eq_some_iff.mp hstatus
  exact (hv.steps hrun).gone hs hrow (Option.map_eq_none_iff.mp hgone)

/-! ## A deletion and a dispatch -/

/-- A draft document; process 0 deletes it, process 1 creates a job for it and process 2 dispatches
the job. -/
def deletionAndDispatch : AppConfig :=
  ProjectStart.config
    [⟨.document (9, 0), { projectId := (9, 2), name := "a.txt", format := .txt, storageKey := "a"
                          sizeBytes := 1 }⟩]
    [.deleteDocument (9, 2) (9, 0), .analysis (.create (9, 2) (9, 0) none false),
      .analysis (.dispatch (1, 0) (.accepted "task"))]

/-- The request to delete reads the status. -/
def deletionChecks : List (Move Process) := [.act 0]

/-- The job is created and dispatched. -/
def jobDispatched : List (Move Process) := List.replicate 7 (.act 1) ++ List.replicate 8 (.act 2)

/-- The request to delete deletes the sources, the document and what goes with it, up to its
commit; with a job there is one statement more. -/
def deletionWrites (jobs : ℕ) : List (Move Process) := List.replicate (8 + jobs) (.act 0)

/-- The step in which process 0 commits. -/
theorem exists_step_of_run {C : Process → AppStmt → AppDb → Prop} [∀ t f s, Decidable (C t f s)]
    (ms : List (Move Process)) (id : Uuid) (status : DocumentStatus)
    (h : (Config.run C ms deletionAndDispatch).any (fun c =>
      documentStatus c.db id = some status &&
        (Config.run C [.act 0] c).any fun c' => documentStatus c'.db id = none) = true) :
    ∃ c c', deletionAndDispatch.Steps C c ∧ c.Step C c' ∧
      documentStatus c.db id = some status ∧ documentStatus c'.db id = none := by
  obtain ⟨c, hrun, hc⟩ := Config.exists_steps_of_run C ms deletionAndDispatch _ h
  rw [Bool.and_eq_true, decide_eq_true_eq] at hc
  obtain ⟨hstatus, hnext⟩ := hc
  rcases hm : c.move (.act 0) with _ | c'
  · simp [Config.run, hm] at hnext
  · by_cases hal : c.Allowed C (.act 0)
    · simp only [Config.run, if_pos hal, hm, Option.bind_some, Option.any_some,
        decide_eq_true_eq] at hnext
      exact ⟨c, c', hrun, ⟨.act 0, hal, hm⟩, hstatus, hnext⟩
    · simp [Config.run, hal] at hnext

/-- The document is deleted before a job is created. -/
theorem draft_document_deleted :
    ∃ c c' status, deletionAndDispatch.Steps deletionTimely c ∧ c.Step deletionTimely c' ∧
      documentStatus c.db (9, 0) = some status ∧ documentStatus c'.db (9, 0) = none ∧
      status ≠ .inProgress := by
  obtain ⟨c, c', hrun, hs, hstatus, hgone⟩ := exists_step_of_run (C := deletionTimely)
    (deletionChecks ++ deletionWrites 0) (9, 0) .draft (by decide +kernel)
  exact ⟨c, c', _, hrun, hs, hstatus, hgone,
    document_deleted_when_idle ProjectStart.of_rows hrun hs hstatus hgone⟩

/-- The job is created and dispatched between the check and the `DELETE`. -/
theorem document_deleted_during_analysis :
    ¬ ∀ (c₀ c c' : AppConfig) (id : Uuid) (status : DocumentStatus), ProjectStart c₀ →
      c₀.Steps Config.anyStmt c → c.Step Config.anyStmt c' →
      documentStatus c.db id = some status → documentStatus c'.db id = none →
      status ≠ .inProgress := by
  intro h
  obtain ⟨c, c', hrun, hs, hstatus, hgone⟩ := exists_step_of_run (C := Config.anyStmt)
    (deletionChecks ++ jobDispatched ++ deletionWrites 1) (9, 0) .inProgress (by decide +kernel)
  exact h _ c c' (9, 0) .inProgress ProjectStart.of_rows hrun hs hstatus hgone rfl

end SyncBack
