import Mathlib.Data.Prod.Lex
import SyncBack.Domain.Entities

/-!
# Listings page by page

`list_by_document` and `list_for_project` as the queries that they send. A query names its
condition, its `ORDER BY` and its limit; which of the permitted orders its answer comes in is up to
the database. `created_at` and `id` are the columns of every table, over any linear orders.

Source: `app/infrastructure/db/repositories/analysis_job_repository.py`,
`app/infrastructure/db/repositories/document_repository.py`, `app/domain/value_objects.py`.
-/

namespace SyncBack

variable {ι τ ρ : Type} [LinearOrder ι] [LinearOrder τ]

/-- A row with its primary key and its `created_at`. -/
structure Stamped (ι τ ρ : Type) where
  id : ι
  createdAt : τ
  row : ρ

/-- The rows of a table; the primary keys are distinct. -/
structure DbTable (ι τ ρ : Type) where
  rows : List (Stamped ι τ ρ)
  distinct : (rows.map Stamped.id).Nodup

/-- Source: `PaginationParams`. -/
structure PaginationParams where
  limit : ℕ
  offset : ℕ
  limit_pos : 1 ≤ limit

/-- Source: `KeysetPage`, with the checks of `__post_init__`. -/
structure KeysetPage (ι τ : Type) where
  limit : ℕ
  beforeCreatedAt : Option τ := none
  beforeId : Option ι := none
  limit_pos : 1 ≤ limit
  together : beforeCreatedAt.isSome = beforeId.isSome

/-- The two kinds of pages. -/
inductive Pagination (ι τ : Type) where
  | offset (params : PaginationParams)
  | keyset (page : KeysetPage ι τ)

namespace Pagination

def limit : Pagination ι τ → ℕ
  | .offset params => params.limit
  | .keyset page => page.limit

def skipped : Pagination ι τ → ℕ
  | .offset params => params.offset
  | .keyset _ => 0

/-- The cursor, if the page has one (`has_cursor`). -/
def cursor : Pagination ι τ → Option (τ × ι)
  | .offset _ => none
  | .keyset page =>
      match page.beforeCreatedAt, page.beforeId with
      | some createdAt, some id => some (createdAt, id)
      | _, _ => none

end Pagination

/-- A `SELECT` of one table. -/
structure Select (ρ : Type) where
  condition : ρ → Bool
  /-- The first row may come before the second one. -/
  orderBy : ρ → ρ → Prop
  limit : ℕ
  offset : ℕ

/-- What the database may answer: a part of the matching rows in one of the permitted orders. -/
def Select.Answers (query : Select ρ) (table result : List ρ) : Prop :=
  ∃ l : List ρ, l.Perm (table.filter query.condition) ∧ l.Pairwise query.orderBy ∧
    result = (l.drop query.offset).take query.limit

/-- Source: `AnalysisJobRepository.list_by_document`. -/
def AnalysisJobRepository.listByDocument (documentId : Uuid) (pagination : Pagination ι τ) :
    Select (Stamped ι τ AnalysisJob) where
  condition job :=
    job.row.documentId = documentId &&
      match pagination.cursor with
      | some (createdAt, id) =>
          job.createdAt < createdAt || (job.createdAt = createdAt && job.id < id)
      | none => true
  orderBy a b := b.createdAt ≤ a.createdAt
  limit := pagination.limit
  offset := pagination.skipped

/-- Source: `DocumentRepository.list_for_project`. -/
def DocumentRepository.listForProject (projectId : Uuid) (pagination : Pagination ι τ)
    (status : Option DocumentStatus) : Select (Stamped ι τ Document) where
  condition document :=
    document.row.projectId = projectId && status.all (fun status => document.row.status = status) &&
      match pagination.cursor with
      | some (createdAt, id) => toLex (document.createdAt, document.id) < toLex (createdAt, id)
      | none => true
  orderBy a b := b.createdAt < a.createdAt ∨ (b.createdAt = a.createdAt ∧ b.id ≤ a.id)
  limit := pagination.limit
  offset := pagination.skipped

end SyncBack
