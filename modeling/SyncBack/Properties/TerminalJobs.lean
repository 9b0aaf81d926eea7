import SyncBack.Application.Statements
import SyncBack.Txn.Pending

/-!
# A terminal job status and stale copies

The services check a transition of a job against the copy that the session has loaded, and flush
the new status by primary key. `job_status_absorbing` says when this is enough to keep terminal
statuses: when no copy has grown stale across the end of the job.
`cancelled_job_overwritten` is a run of two processes in which a copy does: the final task reads
the job as running, the job is cancelled, and the final task overwrites the cancellation.
-/

namespace SyncBack

open Txn Session

/-- A terminal status stays. -/
def KeepsTerminal : (k : Key) → Row k → Row k → Prop
  | .job _, old, new => AnalysisJobLifecycle.isTerminal old.status = true → new.status = old.status
  | _, _, _ => True

/-- **No stale copy**: when the status of a job is changed, the row that the statement finds is
active or finished just as the copy was on which the change was decided. -/
def jobCopyFresh : Process → AppStmt → AppDb → Prop
  | t, .update (.job id) p g, s => ∀ row : AnalysisJob, row ∈ s.read t (.job id) →
      p row = true → (g row).status ≠ row.status → ∀ copy ∈ (g row).basis.jobStatus,
        AnalysisJobLifecycle.isActive row.status = AnalysisJobLifecycle.isActive copy
  | _, _, _ => True

instance : ∀ (t : Process) (f : AppStmt) (s : AppDb), Decidable (jobCopyFresh t f s)
  | t, .update (.job id) p g, s => inferInstanceAs (Decidable (∀ row ∈ s.read t (.job id),
      p row = true → (g row).status ≠ row.status → ∀ copy ∈ (g row).basis.jobStatus,
        AnalysisJobLifecycle.isActive row.status = AnalysisJobLifecycle.isActive copy))
  | _, .update (.document _) _ _, _ | _, .update (.suggestion _) _ _, _
  | _, .update (.jobSource _ _) _ _, _ | _, .update (.source _) _ _, _
  | _, .update (.documentSource _ _) _ _, _ => isTrue trivial
  | _, .get _, _ | _, .find _, _ | _, .insert _ _, _ | _, .delete _ _, _ | _, .draw, _
  | _, .now, _ | _, .send _, _ | _, .await _, _ | _, .commit, _ | _, .rollback, _ => isTrue trivial

/-- An update of a job keeps its status, or changes it by a transition that the life cycle allows
from the copy, or begins an active job. -/
theorem Sent.job_update {kind : OperationKind} {id : Uuid} {p : AnalysisJob → Bool}
    {g : AnalysisJob → AnalysisJob} (h : Sent kind (.update (.job id) p g)) {row : AnalysisJob}
    (hp : p row = true) :
    (g row).status = row.status ∨ ∃ copy, (g row).basis.jobStatus = some copy ∧
      AnalysisJobLifecycle.isActive copy = true := by
  cases h with
  | jobStatus hlegal hkind =>
      rename_i copy new
      by_cases hsame : new.status = copy.status
      · exact .inl (by rw [onto_status, if_pos hsame])
      · refine .inr ⟨copy.status, by rw [onto_basis, if_neg hsame], ?_⟩
        exact AnalysisJobLifecycle.isActive_of_mem_jobTransitions hlegal
  | jobColumns hsame hkind => exact .inl (by rw [onto_status, if_pos hsame])
  | jobBegun => exact .inr ⟨row.status, rfl, hp⟩

/-- A row stays. -/
theorem KeepsTerminal.refl (k : Key) (a : Row k) : KeepsTerminal k a a := by
  cases k
  case job => exact fun _ => rfl
  all_goals trivial

/-- What is kept twice is kept. -/
theorem KeepsTerminal.trans (k : Key) (a b c : Row k) (h : KeepsTerminal k a b)
    (h' : KeepsTerminal k b c) : KeepsTerminal k a c := by
  cases k
  case job =>
    intro hterminal
    have hb : b.status = a.status := h hterminal
    exact (h' (hb ▸ hterminal)).trans hb
  all_goals trivial

/-- A change decided on a fresh copy does not end a terminal status: the copy was active. -/
theorem KeepsTerminal.update {kind : OperationKind} {t : Process} {k : Key} {p : Row k → Bool}
    {g : Row k → Row k} {s : AppDb} {r row : Row k} (hsent : Sent kind (.update k p g))
    (hfresh : jobCopyFresh t (.update k p g) s) (hread : s.read t k = some r) (hp : p r = true)
    (h : KeepsTerminal k row r) : KeepsTerminal k row (g r) := by
  cases k
  case job id =>
    intro hterminal
    have hsame : r.status = row.status := h hterminal
    rw [← hsame] at hterminal ⊢
    by_contra hstatus
    obtain h | ⟨copy, hcopy, hactive⟩ := hsent.job_update hp
    · exact hstatus h
    · have hrow : AnalysisJobLifecycle.isActive r.status = true :=
        (hfresh r hread hp hstatus copy hcopy).trans hactive
      rw [AnalysisJobLifecycle.isTerminal_eq_not_isActive, hrow] at hterminal
      cases hterminal
  all_goals trivial

/-- **When terminal statuses are absorbing.** In a run of any operations in which no job status is
changed on a stale copy, a job whose committed status is terminal keeps it. -/
theorem job_status_absorbing {c₀ c c' : AppConfig} (hinit : c₀.Initial fun _ => True)
    (hrun : c₀.Steps jobCopyFresh c) (hs : c.Steps jobCopyFresh c') {id : Uuid}
    {status : AnalysisJobStatus} (hstatus : jobStatus c.db id = some status)
    (hterminal : AnalysisJobLifecycle.isTerminal status = true) :
    jobStatus c'.db id = some status := by
  have hv : (Contract.ofPending KeepsTerminal jobCopyFresh).Verified (fun _ _ _ => True) c₀ := by
    refine Contract.verified_ofPending (F := fun _ f => ∃ kind, Sent kind f) KeepsTerminal.refl
      hinit.quiet ?_ (fun _ _ ⟨_, hsent⟩ => hsent.deletes) ?_
    · intro t p hp
      obtain ⟨op, -, rfl⟩ := hinit.procs t p hp
      exact op.sends.mono fun f hf => ⟨op.kind, hf⟩
    · rintro t k p g s r row ⟨kind, hsent⟩ hfresh hread hp - h
      exact h.update hsent hfresh hread hp
  obtain ⟨row, hrow, rfl⟩ := Option.map_eq_some_iff.mp hstatus
  obtain ⟨row', hrow', hsame⟩ := (hv.steps hrun).committed_along KeepsTerminal.refl
    KeepsTerminal.trans hs (.job id) row hrow
  rw [jobStatus, hrow', Option.map_some, hsame hterminal]

/-! ## Two runs of the final task and a cancellation -/

/-- A running job with its document; process 0 is its final task, process 1 a request to cancel
it. -/
def finishingJob : AppConfig :=
  AppConfig.start
    [⟨.document (9, 0), { projectId := (9, 2), name := "a.txt", format := .txt, storageKey := "a"
                          sizeBytes := 1, status := .inProgress
                          currentAnalysisJobId := some (9, 1) }⟩,
      ⟨.job (9, 1), { documentId := (9, 0), status := .processing }⟩]
    [.analysis (9, 1) []] [.finalize (some []) [] (9, 1), .cancel (9, 2) (9, 0) (9, 1) false]

/-- The final task reads its message, the job and the document, and counts. -/
def finalTaskReads : List (Move Process) := List.replicate 4 (.act 0)

/-- The final task flushes the job and the document, and commits. -/
def finalTaskWrites : List (Move Process) := List.replicate 4 (.act 0)

/-- The request reads the document, the job and the document again, and commits the
cancellation. -/
def cancels : List (Move Process) := List.replicate 7 (.act 1)

/-- The cancellation commits before the final task reads the job: it stays cancelled. -/
theorem cancelled_job_kept :
    ∃ c, finishingJob.Steps jobCopyFresh c ∧ (c.result 0).isSome = true ∧
      jobStatus c.db (9, 1) = some .cancelled := by
  obtain ⟨c, hrun, hc⟩ := Config.exists_steps_of_run jobCopyFresh cancels finishingJob
    (fun c => jobStatus c.db (9, 1) = some .cancelled &&
      (Config.run jobCopyFresh (List.replicate 3 (.act 0)) c).any fun c' => (c'.result 0).isSome)
    (by decide +kernel)
  rw [Bool.and_eq_true, decide_eq_true_eq] at hc
  obtain ⟨c', hs, hend⟩ := Config.exists_steps_of_run _ _ c _ hc.2
  exact ⟨c', hrun.trans hs, hend,
    job_status_absorbing (AppConfig.initial_start fun _ _ => trivial) hrun hs hc.1 rfl⟩

/-- The cancellation commits between the reads and the writes of the final task: the job ends as a
success. -/
theorem cancelled_job_overwritten :
    ¬ ∀ (c₀ c c' : AppConfig) (id : Uuid) (status : AnalysisJobStatus),
      c₀.Initial (fun kind => kind ∈ [OperationKind.finalize, .cancel]) →
      c₀.Steps Config.anyStmt c → c.Steps Config.anyStmt c' → jobStatus c.db id = some status →
      AnalysisJobLifecycle.isTerminal status = true → jobStatus c'.db id = some status := by
  intro h
  obtain ⟨c, hrun, hc⟩ := Config.exists_steps_of_run Config.anyStmt (finalTaskReads ++ cancels)
    finishingJob (fun c => jobStatus c.db (9, 1) = some .cancelled &&
      (Config.run Config.anyStmt finalTaskWrites c).any
        fun c' => jobStatus c'.db (9, 1) = some .success)
    (by decide +kernel)
  rw [Bool.and_eq_true, decide_eq_true_eq] at hc
  obtain ⟨c', hs, hsuccess⟩ := Config.exists_steps_of_run _ _ c _ hc.2
  rw [decide_eq_true_eq] at hsuccess
  have hkept := h finishingJob c c' (9, 1) .cancelled
    (AppConfig.initial_start (by simp [Operation.kind])) hrun hs hc.1 rfl
  rw [hsuccess] at hkept
  cases hkept

end SyncBack
