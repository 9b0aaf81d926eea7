import Mathlib.Logic.Function.Basic
import Mathlib.Logic.Relation
import SyncBack.Domain.Lifecycle

/-!
# Documents and their jobs

The two life cycles together, apart from rows and transactions. A document of `D` has at most one
current job of `J`, a job belongs to one document, and `Statuses` keeps of both what the life cycles
speak about.

* `Coupled` — what the status of a document has to do with its current job;
* `Step` — what an operation may commit: a new document, a new job that becomes the current one, or
  a move of the current job and its document;
* `Step.coupled`, `Step.legal` — a step keeps the statuses coupled, and both tables change along
  their transitions.
-/

set_option linter.unusedSectionVars false

namespace SyncBack

/-- What the life cycles say of a document: its status and its current job. -/
structure DocumentState (J : Type) where
  status : DocumentStatus
  currentJob : Option J

/-- What the life cycles say of a job: the document it belongs to and its status. -/
structure JobState (D : Type) where
  document : D
  status : AnalysisJobStatus

/-- The documents and the jobs. -/
structure Statuses (D J : Type) where
  document : D → Option (DocumentState J)
  job : J → Option (JobState D)

/-! ## Matching statuses -/

/-- The status of a document goes with the status of its current job. -/
def AnalysisJobStatus.Matches : AnalysisJobStatus → DocumentStatus → Prop
  | .pending, d | .failed, d | .cancelled, d => d = .draft
  | .dispatched, d | .processing, d => d = .inProgress
  | .success, d | .partialSuccess, d => d = .awaitingApproval ∨ d = .ready

namespace AnalysisJobStatus

variable {status : AnalysisJobStatus} {d : DocumentStatus}

/-- The jobs of a draft. -/
theorem Matches.draft_iff (h : status.Matches d) :
    status ∈ [pending, failed, cancelled] ↔ d = .draft := by
  cases status <;> cases d <;> simp_all [Matches]

/-- The jobs of a document in progress. -/
theorem Matches.inProgress_iff (h : status.Matches d) :
    status ∈ [dispatched, processing] ↔ d = .inProgress := by
  cases status <;> cases d <;> simp_all [Matches]

/-- The jobs of a document that is under review or reviewed. -/
theorem Matches.reviewed_iff (h : status.Matches d) :
    status ∈ [success, partialSuccess] ↔ d = .awaitingApproval ∨ d = .ready := by
  cases status <;> cases d <;> simp_all [Matches]

end AnalysisJobStatus

namespace AnalysisJobLifecycle

/-- The status that a document is given goes with the status of its job. -/
theorem matches_documentStatusFor (status : AnalysisJobStatus) (b : Bool) :
    status.Matches (documentStatusFor status b) := by
  cases status
  case success | partialSuccess =>
    cases b
    · exact .inr rfl
    · exact .inl rfl
  all_goals rfl

/-- A document in step with its job can follow it; `processing` is not set together with a
document. -/
theorem documentStatusFor_mem {status target : AnalysisJobStatus} {d : DocumentStatus}
    (h : status.Matches d) (hlegal : target ∈ jobTransitions status) (hne : target ≠ .processing)
    (b : Bool) : documentStatusFor target b ∈ documentTransitions d := by
  cases status
  case pending =>
    obtain rfl : d = .draft := h
    revert hlegal hne
    cases target <;> cases b <;> decide
  case dispatched | processing =>
    obtain rfl : d = .inProgress := h
    revert hlegal hne
    cases target <;> cases b <;> decide
  all_goals cases hlegal

/-- An active job that was begun can end in any way. -/
theorem mem_jobTransitions_of_begun {status target : AnalysisJobStatus}
    (hactive : isActive status = true) (hne : status ≠ .pending)
    (hterminal : isTerminal target = true) : target ∈ jobTransitions status := by
  revert hactive hne hterminal
  cases status <;> cases target <;> decide

/-- No job goes back to `pending`. -/
theorem pending_notMem_jobTransitions (status : AnalysisJobStatus) :
    .pending ∉ jobTransitions status := by
  cases status <;> decide

end AnalysisJobLifecycle

namespace Statuses

variable {D J : Type} [DecidableEq D] [DecidableEq J] {S S' : Statuses D J}

/-! ## Changes of one document or one job -/

/-- Another state of a document. -/
def setDocument (S : Statuses D J) (d : D) (x : DocumentState J) : Statuses D J :=
  { S with document := Function.update S.document d (some x) }

/-- Another state of a job. -/
def setJob (S : Statuses D J) (j : J) (y : JobState D) : Statuses D J :=
  { S with job := Function.update S.job j (some y) }

/-- Other statuses of a document and its current job. -/
def move (S : Statuses D J) (d : D) (j : J) (job : AnalysisJobStatus) (document : DocumentStatus) :
    Statuses D J :=
  (S.setJob j ⟨d, job⟩).setDocument d ⟨document, some j⟩

/-- The document has the new state. -/
@[simp] theorem setDocument_document_self (S : Statuses D J) (d : D) (x : DocumentState J) :
    (S.setDocument d x).document d = some x := Function.update_self _ _ _

/-- Other documents keep theirs. -/
theorem setDocument_document_of_ne (S : Statuses D J) {d d' : D} (x : DocumentState J)
    (h : d' ≠ d) : (S.setDocument d x).document d' = S.document d' := Function.update_of_ne h _ _

/-- The job has the new state. -/
@[simp] theorem setJob_job_self (S : Statuses D J) (j : J) (y : JobState D) :
    (S.setJob j y).job j = some y := Function.update_self _ _ _

/-- Other jobs keep theirs. -/
theorem setJob_job_of_ne (S : Statuses D J) {j j' : J} (y : JobState D) (h : j' ≠ j) :
    (S.setJob j y).job j' = S.job j' := Function.update_of_ne h _ _

/-- Documents keep theirs when a job changes. -/
@[simp] theorem setJob_document (S : Statuses D J) (j : J) (y : JobState D) :
    (S.setJob j y).document = S.document := rfl

/-- A state that is there already. -/
theorem setDocument_self {d : D} {x : DocumentState J} (h : S.document d = some x) :
    S.setDocument d x = S := by
  rw [setDocument, ← h, Function.update_eq_self]

/-- A job that gets the state that it has. -/
theorem setJob_self {j : J} {y : JobState D} (h : S.job j = some y) : S.setJob j y = S := by
  rw [setJob, ← h, Function.update_eq_self]

/-- Of two states of a document the last one counts. -/
theorem setDocument_setJob_setDocument (S : Statuses D J) (d : D) (j : J) (x x' : DocumentState J)
    (y : JobState D) :
    ((S.setDocument d x).setJob j y).setDocument d x' = (S.setJob j y).setDocument d x' := by
  simp only [setDocument, setJob, Function.update_idem]

/-! ## The coupling -/

/-- **The statuses of documents and jobs are coupled**: the current job of a document is one of its
jobs and goes with its status, a document without one is a draft, and an active job is the current
one of its document. -/
structure Coupled (S : Statuses D J) : Prop where
  current : ∀ d x j, S.document d = some x → x.currentJob = some j →
    ∃ y, S.job j = some y ∧ y.document = d ∧ y.status.Matches x.status
  draft : ∀ d x, S.document d = some x → x.currentJob = none → x.status = .draft
  active : ∀ j y, S.job j = some y → AnalysisJobLifecycle.isActive y.status = true →
    ∃ x, S.document y.document = some x ∧ x.currentJob = some j

/-- Without documents and jobs there is nothing to couple. -/
theorem coupled_of_none (hd : ∀ d, S.document d = none) (hj : ∀ j, S.job j = none) :
    S.Coupled where
  current d x j hx := by
    rw [hd] at hx
    cases hx
  draft d x hx := by
    rw [hd] at hx
    cases hx
  active j y hy := by
    rw [hj] at hy
    cases hy

/-- **What an operation may commit.** -/
inductive Step (S : Statuses D J) : Statuses D J → Prop
  /-- A new document. -/
  | upload {d} (hnew : S.document d = none) : Step S (S.setDocument d ⟨.draft, none⟩)
  /-- A new job of a document without an active one becomes the current one. -/
  | create {d j x} (hdocument : S.document d = some x)
      (hlegal : x.status = .draft ∨ .draft ∈ documentTransitions x.status)
      (hnew : S.job j = none)
      (hidle : ∀ j' y, S.job j' = some y → y.document = d →
        AnalysisJobLifecycle.isActive y.status = false) :
      Step S (S.move d j .pending .draft)
  /-- The current job, the document, or both of them move. -/
  | move {d j x y job document} (hdocument : S.document d = some x) (hcurrent : x.currentJob = some j)
      (hjob : S.job j = some y) (howner : y.document = d)
      (hjobLegal : job = y.status ∨ job ∈ jobTransitions y.status)
      (hdocumentLegal : document = x.status ∨ document ∈ documentTransitions x.status)
      (hmatches : job.Matches document) : Step S (S.move d j job document)

/-- An active job of a document is its only one. -/
theorem Coupled.active_unique (hS : S.Coupled) {j j' : J} {y y' : JobState D}
    (hy : S.job j = some y) (hy' : S.job j' = some y') (hdocument : y.document = y'.document)
    (hactive : AnalysisJobLifecycle.isActive y.status = true)
    (hactive' : AnalysisJobLifecycle.isActive y'.status = true) : j = j' := by
  obtain ⟨x, hx, hcurrent⟩ := hS.active j y hy hactive
  obtain ⟨x', hx', hcurrent'⟩ := hS.active j' y' hy' hactive'
  rw [hdocument, hx'] at hx
  obtain rfl := Option.some.inj hx
  exact Option.some.inj (hcurrent.symm.trans hcurrent')

/-- The document of a pair moves, the others stay. -/
theorem move_document (S : Statuses D J) (d d' : D) (j : J) (job : AnalysisJobStatus)
    (document : DocumentStatus) : (S.move d j job document).document d' =
      if d' = d then some ⟨document, some j⟩ else S.document d' := by
  split_ifs with h
  · subst h
    exact setDocument_document_self _ _ _
  · exact setDocument_document_of_ne _ _ h

/-- The jobs after a move. -/
theorem move_job (S : Statuses D J) (d : D) (j j' : J) (job : AnalysisJobStatus)
    (document : DocumentStatus) : (S.move d j job document).job j' =
      if j' = j then some ⟨d, job⟩ else S.job j' := by
  split_ifs with h
  · subst h
    exact setJob_job_self _ _ _
  · exact setJob_job_of_ne _ _ h

/-- A pair that goes together, among the coupled: no other document has the job, and no other job of
the document is active. -/
theorem Coupled.move (hS : S.Coupled) {d : D} {j : J} {job : AnalysisJobStatus}
    {document : DocumentStatus} (hmatches : job.Matches document)
    (howner : ∀ d' x, d' ≠ d → S.document d' = some x → x.currentJob ≠ some j)
    (hidle : ∀ j' y, j' ≠ j → S.job j' = some y → y.document = d →
      AnalysisJobLifecycle.isActive y.status = false) : (S.move d j job document).Coupled where
  current d' x j' hx hcurrent := by
    rw [move_document] at hx
    rw [move_job]
    split_ifs at hx with hd
    · obtain rfl := Option.some.inj hx
      obtain rfl := Option.some.inj hcurrent
      exact ⟨_, if_pos rfl, hd.symm, hmatches⟩
    · have hne : j' ≠ j := by
        rintro rfl
        exact howner d' x hd hx hcurrent
      rw [if_neg hne]
      exact hS.current d' x j' hx hcurrent
  draft d' x hx hcurrent := by
    rw [move_document] at hx
    split_ifs at hx with hd
    · obtain rfl := Option.some.inj hx
      cases hcurrent
    · exact hS.draft d' x hx hcurrent
  active j' y hy hactive := by
    rw [move_job] at hy
    split_ifs at hy with hj
    · obtain rfl := Option.some.inj hy
      rw [move_document, if_pos rfl]
      exact ⟨_, rfl, congrArg some hj.symm⟩
    · have hne : y.document ≠ d := fun hd => by
        rw [hidle j' y hj hy hd] at hactive
        cases hactive
      rw [move_document, if_neg hne]
      exact hS.active j' y hy hactive

/-- **A step keeps the statuses coupled.** -/
theorem Step.coupled (h : S.Step S') (hS : S.Coupled) : S'.Coupled := by
  cases h with
  | @upload d hnew =>
      refine ⟨fun d' x j hx hcurrent => ?_, fun d' x hx hcurrent => ?_, fun j y hy hactive => ?_⟩
      · by_cases hd : d' = d
        · subst hd
          rw [setDocument_document_self] at hx
          obtain rfl := Option.some.inj hx
          cases hcurrent
        · rw [setDocument_document_of_ne S _ hd] at hx
          exact hS.current d' x j hx hcurrent
      · by_cases hd : d' = d
        · subst hd
          rw [setDocument_document_self] at hx
          obtain rfl := Option.some.inj hx
          rfl
        · rw [setDocument_document_of_ne S _ hd] at hx
          exact hS.draft d' x hx hcurrent
      · obtain ⟨x, hx, hcurrent⟩ := hS.active j y hy hactive
        have hd : y.document ≠ d := by
          rintro rfl
          rw [hnew] at hx
          cases hx
        exact ⟨x, (setDocument_document_of_ne S _ hd).trans hx, hcurrent⟩
  | @create d j x hdocument hlegal hnew hidle =>
      refine hS.move rfl (fun d' x' _ hx' hcurrent => ?_) fun j' y _ => hidle j' y
      obtain ⟨y, hy, -⟩ := hS.current d' x' j hx' hcurrent
      rw [hnew] at hy
      cases hy
  | @move d j x y job document hdocument hcurrent hjob howner hjobLegal hdocumentLegal hmatches =>
      refine hS.move hmatches (fun d' x' hd' hx' hcurrent' => ?_) fun j' y' hj' hy' howner' => ?_
      · obtain ⟨y', hy', howner', -⟩ := hS.current d' x' j hx' hcurrent'
        rw [hjob] at hy'
        obtain rfl := Option.some.inj hy'
        exact hd' (howner'.symm.trans howner)
      · -- an active job would be the current one
        rw [← Bool.not_eq_true]
        intro hactive
        obtain ⟨x', hx', hcurrent'⟩ := hS.active j' y' hy' hactive
        rw [howner', hdocument] at hx'
        obtain rfl := Option.some.inj hx'
        exact hj' (Option.some.inj (hcurrent'.symm.trans hcurrent))

/-- Results of an analysis can be under review or reviewed. -/
theorem matches_of_reviewed {status : AnalysisJobStatus} {d target : DocumentStatus}
    (h : status.Matches d) (hd : d = .awaitingApproval ∨ d = .ready)
    (htarget : target = .awaitingApproval ∨ target = .ready) : status.Matches target := by
  cases status
  case success | partialSuccess => exact htarget
  all_goals
    change d = _ at h
    subst h
    rcases hd with hd | hd <;> cases hd

/-- A document with results gets another status that goes with them. -/
theorem Coupled.step_document (hS : S.Coupled) {d : D} {x : DocumentState J}
    (hx : S.document d = some x) (hreviewed : x.status = .awaitingApproval ∨ x.status = .ready)
    {target : DocumentStatus} (htarget : target = .awaitingApproval ∨ target = .ready)
    (hlegal : target = x.status ∨ target ∈ documentTransitions x.status) :
    S.Step (S.setDocument d ⟨target, x.currentJob⟩) := by
  rcases hcurrent : x.currentJob with _ | j
  · have hdraft := hS.draft d x hx hcurrent
    rw [hdraft] at hreviewed
    rcases hreviewed with h | h <;> cases h
  · obtain ⟨y, hy, howner, hmatches⟩ := hS.current d x j hx hcurrent
    have hstep := Step.move hx hcurrent hy howner (.inl rfl) hlegal
      (matches_of_reviewed hmatches hreviewed htarget)
    rw [Statuses.move, ← howner, setJob_self hy] at hstep
    rw [← howner]
    exact hstep

/-- An active job that was begun goes to `processing`, and its document stays in progress. -/
theorem Coupled.step_processing (hS : S.Coupled) {j : J} {y : JobState D} (hy : S.job j = some y)
    (hactive : AnalysisJobLifecycle.isActive y.status = true) (hne : y.status ≠ .pending) :
    S.Step (S.setJob j ⟨y.document, .processing⟩) := by
  obtain ⟨x, hx, hcurrent⟩ := hS.active j y hy hactive
  obtain ⟨y', hy', -, hmatches⟩ := hS.current _ x j hx hcurrent
  obtain rfl := Option.some.inj (hy.symm.trans hy')
  have hbegun : (.processing = y.status ∨ .processing ∈ jobTransitions y.status) ∧
      AnalysisJobStatus.processing.Matches x.status := by
    revert hmatches hactive hne
    cases y.status
    case dispatched | processing => exact fun _ _ h => ⟨by decide, h⟩
    case pending => exact fun _ h => absurd rfl h
    all_goals exact fun h => nomatch h
  have hstep := Step.move hx hcurrent hy rfl hbegun.1 (.inl rfl) hbegun.2
  have hsame : (⟨x.status, some j⟩ : DocumentState J) = x := by rw [← hcurrent]
  rw [Statuses.move, hsame, setDocument_self (by exact hx)] at hstep
  exact hstep

/-! ## Legal changes -/

/-- Every document and every job is still there, and its status is the same or was left by a
transition. -/
structure Legal (S S' : Statuses D J) : Prop where
  document : ∀ d x, S.document d = some x → ∃ x', S'.document d = some x' ∧
    (x'.status = x.status ∨ x'.status ∈ documentTransitions x.status)
  job : ∀ j y, S.job j = some y → ∃ y', S'.job j = some y' ∧ y'.document = y.document ∧
    (y'.status = y.status ∨ y'.status ∈ jobTransitions y.status)

/-- Nothing changes. -/
theorem Legal.refl (S : Statuses D J) : S.Legal S :=
  ⟨fun _ x h => ⟨x, h, .inl rfl⟩, fun _ y h => ⟨y, h, rfl, .inl rfl⟩⟩

/-- A move is legal if it is one for the job and for the document. -/
theorem legal_move {d : D} {j : J} {job : AnalysisJobStatus} {document : DocumentStatus}
    (hdocument : ∀ x, S.document d = some x →
      document = x.status ∨ document ∈ documentTransitions x.status)
    (hjob : ∀ y, S.job j = some y →
      y.document = d ∧ (job = y.status ∨ job ∈ jobTransitions y.status)) :
    S.Legal (S.move d j job document) where
  document d' x hx := by
    rw [move_document]
    split_ifs with hd
    · exact ⟨_, rfl, hdocument x (hd ▸ hx)⟩
    · exact ⟨x, hx, .inl rfl⟩
  job j' y hy := by
    rw [move_job]
    split_ifs with hj
    · obtain ⟨howner, hlegal⟩ := hjob y (hj ▸ hy)
      exact ⟨_, rfl, howner.symm, hlegal⟩
    · exact ⟨y, hy, rfl, .inl rfl⟩

/-- **A step changes statuses along the transitions.** -/
theorem Step.legal (h : S.Step S') : S.Legal S' := by
  cases h with
  | @upload d hnew =>
      refine ⟨fun d' x hx => ⟨x, ?_, .inl rfl⟩, (Legal.refl S).job⟩
      have hd : d' ≠ d := by
        rintro rfl
        rw [hnew] at hx
        cases hx
      rw [setDocument_document_of_ne S _ hd]
      exact hx
  | @create d j x hdocument hlegal hnew hidle =>
      refine legal_move (fun x' hx' => ?_) fun y hy => ?_
      · obtain rfl := Option.some.inj (hdocument.symm.trans hx')
        exact hlegal.imp Eq.symm id
      · rw [hnew] at hy
        cases hy
  | @move d j x y job document hdocument hcurrent hjob howner hjobLegal hdocumentLegal hmatches =>
      refine legal_move (fun x' hx' => ?_) fun y' hy' => ?_
      · obtain rfl := Option.some.inj (hdocument.symm.trans hx')
        exact hdocumentLegal
      · obtain rfl := Option.some.inj (hjob.symm.trans hy')
        exact ⟨howner, hjobLegal⟩

/-- The job is there and no longer pending. -/
def Begun (S : Statuses D J) (j : J) : Prop := ∃ y, S.job j = some y ∧ y.status ≠ .pending

/-- A job that was begun stays begun. -/
theorem Begun.legal {j : J} (h : S.Begun j) (hlegal : S.Legal S') : S'.Begun j := by
  obtain ⟨y, hy, hne⟩ := h
  obtain ⟨y', hy', -, hsame | hmem⟩ := hlegal.job j y hy
  · exact ⟨y', hy', hsame ▸ hne⟩
  · refine ⟨y', hy', fun hpending => ?_⟩
    rw [hpending] at hmem
    exact AnalysisJobLifecycle.pending_notMem_jobTransitions _ hmem

end Statuses

end SyncBack
