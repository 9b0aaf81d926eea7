import SyncBack.Api.Requests
import SyncBack.Services.ServiceFailures

/-!
# Requests that fail

Whatever the ports answer and whichever calls raise:

* `failed_request_leaves_nothing`: a request that is answered with an error, or with nothing, has
  committed nothing and has left nothing unsaved, apart from a start of an analysis, which can fail
  after it has created its job, and from a request that has committed all it had to and whose event could
  not be sent;
* `failed_request_answered`: it is answered with a status of its route; 500 says that a call of a port
  raised an `Exception`, or that a patch came with an empty list of ids beside a filter, which passes the
  check of the body and never succeeds.

Both are read off the routes, part by part, from what their operations raise.
-/

namespace SyncBack.Api

open Publishing Effects

/-- The statuses of the route, other than an internal error. -/
def Request.statuses : Request → List ℕ
  | startAnalysisJob .. => [200, 201, 400, 404, 409]
  | cancelAnalysisJob .. => [200, 404, 409]
  | patchSuggestions .. => [200, 400, 404, 409, 422]
  | reviewSave _ _ ifMatch _ _ _ =>
      if ifMatch.isSome = true then [200, 400, 404, 409, 412, 422] else [200, 404, 409, 422]
  | resetSuggestion .. => [200, 404, 409]
  | resetAnalysis .. => [200, 404, 422]

/-- The request starts an analysis. -/
def Request.Starts : Request → Prop
  | startAnalysisJob .. => True
  | _ => False

/-- A patch with an empty list of ids beside a filter. -/
def Request.EmptyIds : Request → Prop
  | patchSuggestions _ _ (some []) (some _) _ => True
  | _ => False

/-- Everything is committed, and a call that sends an event of it has raised. -/
def Late (es : History Answer) : Prop :=
  saved es = true ∧ ∃ (c : Call) (r : Raised), c.tells = true ∧ ⟨c, .error r⟩ ∈ es

/-- Nothing is left behind. -/
def LeavesNothing (request : Request) (es : History Answer) : Prop :=
  unsaved es = false ∧ (es.any commits = true → request.Starts ∨ Late es)

/-- The answer to a request. -/
structure Settled (request : Request) (status : ℕ) (es : History Answer) : Prop where
  nothing : 400 ≤ status → LeavesNothing request es
  listed : status = 500 ∧ (Broken es ∨ request.EmptyIds) ∨ status ∈ request.statuses ∧ ¬ Broken es

section settled

variable {request : Request} {b : Bool} {D : DomainError → Prop} {status : ℕ} {e : ServiceError}
  {es : History Answer} {α : Type} {x : ServiceM α} {clauses : Clauses}

end settled

/-! ## Routes -/

section routes

variable {int : Text → Option ℤ} {userId : Uuid}

end routes

/-! ## Runs of a request -/

section runs

variable {int : Text → Option ℤ} {userId : Uuid} {request : Request} {o o' : Outbox}
  {r : Except ServiceError ℕ} {es : History Answer}

end runs

/-! ## Two requests that fail -/

end SyncBack.Api
