import SyncBack.Domain.Entities
import SyncBack.Txn.Interleaving

/-!
# The schema and the session

The tables of the application as an instance of the READ COMMITTED library: the keys, the row
type under each key, and the unique indexes on `analysis_jobs`. A session is a program over them
that may raise a `DomainError`.

An object loaded in a session is its primary key and the attribute values it was loaded with;
setting an attribute and flushing sends an `UPDATE … WHERE id = ?` of the columns whose value
differs from the loaded one (`flushJob`), and no statement at all when none differs.

Source: `app/infrastructure/db/models/*.py`, `app/infrastructure/db/unit_of_work.py`.
-/

namespace SyncBack

open Txn

/-- The primary keys of the modelled tables. The unique constraint on
`analysis_job_sources (job_id, source_id)` is expressed by using that pair as the key. -/
inductive Key where
  | document (id : Uuid)
  | job (id : Uuid)
  | suggestion (id : Uuid)
  | jobSource (jobId sourceId : Uuid)
  | source (id : Uuid)
  | documentSource (documentId sourceId : Uuid)
  deriving DecidableEq

/-- The rows of the modelled tables. -/
abbrev Row : Key → Type
  | .document _ => Document
  | .job _ => AnalysisJob
  | .suggestion _ => Suggestion
  | .jobSource _ _ => AnalysisJobSource
  | .source _ => Source
  | .documentSource _ _ => Unit

/-- What the queue holds for a dispatched job: one task for each source, and the final task.
Source: `app/infrastructure/queue/celery_analysis_queue.py`. -/
inductive Message where
  | analysis (jobId : Uuid) (sourceIds : List Uuid)
  deriving DecidableEq

/-- The two unique indexes of `analysis_jobs`: `uq_analysis_jobs_doc_idem_key` and
`uq_analysis_jobs_one_active_per_document`. -/
def AnalysisJob.clash (a b : AnalysisJob) : Bool :=
  a.documentId = b.documentId &&
    ((a.idempotencyKey.isSome && a.idempotencyKey = b.idempotencyKey) ||
      (AnalysisJobLifecycle.isActive a.status && AnalysisJobLifecycle.isActive b.status))

instance : UniqueIndex Key Row where
  clash
    | .job _, a, .job _, b => a.clash b
    | _, _, _, _ => false

/-- The database of the application. -/
abbrev AppDb := Db Process Key Row Message

/-- A statement of the application. -/
abbrev AppStmt := Stmt Key Row Message

/-- The code of one session. -/
abbrev Session (α : Type) := Prog Process Key Row Message DomainError α

/-- An object loaded in a session. -/
structure Loaded (ρ : Type) where
  id : Uuid
  row : ρ
  deriving DecidableEq

/-- The committed status of a job. -/
def jobStatus (s : AppDb) (id : Uuid) : Option AnalysisJobStatus :=
  (s.committed (.job id)).map AnalysisJob.status

/-- The committed status of a document. -/
def documentStatus (s : AppDb) (id : Uuid) : Option DocumentStatus :=
  (s.committed (.document id)).map Document.status

namespace Session

/-- `SELECT … WHERE` primary key. -/
def fetch (k : Key) : Session (Option (Row k)) := Prog.stmt (.get k)

/-- `SELECT … WHERE` condition. -/
def select (p : (k : Key) → Row k → Bool) : Session (List (Sigma Row)) := Prog.stmt (.find p)

/-- `UPDATE … SET … WHERE` primary key and condition. -/
def update (k : Key) (p : Row k → Bool) (f : Row k → Row k) : Session (Outcome (Row k)) :=
  Prog.stmt (.update k p f)

/-- `INSERT` in a savepoint. -/
def insert (k : Key) (row : Row k) : Session Bool := Prog.stmt (.insert k row)

/-- `DELETE … WHERE` primary key and condition, with the row that was deleted. -/
def delete (k : Key) (p : Row k → Bool) : Session (Option (Row k)) := Prog.stmt (.delete k p)

/-- Lock, recheck and delete the rows of a snapshot one by one; the keys that were deleted. -/
def deleteRows (p : (k : Key) → Row k → Bool) : List Key → Session (List Key)
  | [] => pure []
  | k :: rest => do
      let row ← delete k (p k)
      let deleted ← deleteRows p rest
      pure (if row.isSome then k :: deleted else deleted)

/-- `DELETE FROM … WHERE …`. -/
def deleteWhere (p : (k : Key) → Row k → Bool) : Session (List Key) := do
  let snapshot ← select p
  deleteRows p (snapshot.map Sigma.fst)

/-- Hand a message to the broker. -/
def send (m : Message) : Session Unit := Prog.stmt (.send m)

/-- Start when the broker delivers the message. -/
def await (m : Message) : Session Unit := Prog.stmt (.await m)

/-- The row that a flush rewrote; no row is a stale object, a broken unique index is an
`IntegrityError`. -/
def flushed {ρ : Type} : Outcome ρ → Session ρ
  | .updated row => pure row
  | .missed => throw .staleData
  | .violated => throw .integrityError

/-- The row that a conditional statement rewrote, if its condition held. -/
def matched {ρ : Type} : Outcome ρ → Session (Option ρ)
  | .updated row => pure (some row)
  | .missed => pure none
  | .violated => throw .integrityError

/-- A column after a flush: written only if its value in the session was changed. -/
def column {γ : Type} [DecidableEq γ] (loaded new current : γ) : γ :=
  if new = loaded then current else new

/-- `session.get` of a row that the session has loaded before: the identity map keeps weak
references, so the object comes from there only while something still refers to it. -/
def getHeld {ρ : Type} (held : Option (Loaded ρ)) (read : Session (Option (Loaded ρ))) :
    Session (Option (Loaded ρ)) :=
  match held with
  | some object => pure (some object)
  | none => read

/-- `async with uow:` — an exception rolls the transaction back and goes on.
Source: `SqlAlchemyUnitOfWork.__aexit__`. -/
def withUow {α : Type} (body : Session α) : Session α :=
  Prog.tryCatch body fun e => do
    Prog.stmt .rollback
    throw e

/-- The end of a session: closing the connection discards what was not committed.
Source: `get_db_session`, `isolated_db_session`. -/
def closing {α : Type} (body : Session α) : Session α := do
  let a ← withUow body
  Prog.stmt .rollback
  pure a

/-- Source: `SqlAlchemyUnitOfWork.commit`. -/
def commit : Session Unit := Prog.stmt .commit

/-- Source: `SqlAlchemyUnitOfWork.rollback`. -/
def rollback : Session Unit := Prog.stmt .rollback

/-- `uuid.uuid4()`. -/
def uuid4 : Session Uuid := Prog.stmt .draw

/-- `datetime.now(UTC)`. -/
def now : Session ℕ := Prog.stmt .now

end Session

/-- The columns of a job that a flush writes. -/
def AnalysisJob.onto (loaded new current : AnalysisJob) : AnalysisJob where
  documentId := Session.column loaded.documentId new.documentId current.documentId
  status := Session.column loaded.status new.status current.status
  idempotencyKey := Session.column loaded.idempotencyKey new.idempotencyKey current.idempotencyKey
  celeryTaskId := Session.column loaded.celeryTaskId new.celeryTaskId current.celeryTaskId
  errorCode := Session.column loaded.errorCode new.errorCode current.errorCode
  errorMessage := Session.column loaded.errorMessage new.errorMessage current.errorMessage
  partialSuccess := Session.column loaded.partialSuccess new.partialSuccess current.partialSuccess
  startedAt := Session.column loaded.startedAt new.startedAt current.startedAt
  finishedAt := Session.column loaded.finishedAt new.finishedAt current.finishedAt
  basis := if new.status = loaded.status then current.basis else { jobStatus := some loaded.status }

/-- A copy writes its status if it has changed it. -/
theorem onto_status (copy new row : AnalysisJob) :
    (AnalysisJob.onto copy new row).status =
      if new.status = copy.status then row.status else new.status := rfl

/-- It writes what the change was decided on if it has changed the status. -/
theorem onto_basis (copy new row : AnalysisJob) :
    (AnalysisJob.onto copy new row).basis =
      if new.status = copy.status then row.basis else { jobStatus := some copy.status } := rfl

namespace Session

/-- A column that was not changed stays. -/
@[simp] theorem column_self {γ : Type} [DecidableEq γ] (loaded current : γ) :
    column loaded loaded current = current := if_pos rfl

/-- Nobody else has written the column. -/
theorem column_loaded {γ : Type} [DecidableEq γ] (loaded new : γ) :
    column loaded new loaded = new := by
  unfold column
  split
  · rename_i heq
    exact heq.symm
  · rfl

/-- `flush()` after setting attributes of a job. -/
def flushJob (job : Loaded AnalysisJob) (new : AnalysisJob) : Session (Loaded AnalysisJob) :=
  if new = job.row then pure job
  else do
    let o ← update (.job job.id) (fun _ => true) (AnalysisJob.onto job.row new)
    let _ ← flushed o
    pure ⟨job.id, new⟩

end Session

end SyncBack
