import SyncBack.Infrastructure.Listings
import SyncBack.Pagination.Keyset

/-!
# Every row on exactly one page

A client that goes through `list_for_project` page by page sees every document of the project
exactly once: the cursor compares what the query sorts by. `list_by_document` sorts by `created_at`
alone and compares `created_at` and `id`. It is right unless a page can end with one of several jobs
that were created at the same time; then the database may give the last of them an `id` that makes
the cursor lose or repeat another.
-/

set_option linter.unusedSectionVars false

namespace SyncBack

open Pagination

variable {ι τ ρ : Type} [LinearOrder ι] [LinearOrder τ]

/-- What the cursor after a row is made of. -/
def Stamped.cursor (row : Stamped ι τ ρ) : τ ×ₗ ι := toLex (row.createdAt, row.id)

/-- The page after a cursor; the first page has none. -/
def KeysetPage.after (limit : ℕ) (h : 1 ≤ limit) (cursor : Option (τ ×ₗ ι)) : KeysetPage ι τ where
  limit := limit
  beforeCreatedAt := cursor.map fun c => (ofLex c).1
  beforeId := cursor.map fun c => (ofLex c).2
  limit_pos := h
  together := by cases cursor <;> rfl

/-- Going through all pages brings each row of `rows` exactly once, whatever the database chooses
for the page after each cursor. -/
def EachOnce (query : KeysetPage ι τ → Select (Stamped ι τ ρ)) (table rows : List (Stamped ι τ ρ))
    (limit : ℕ) (h : 1 ≤ limit) : Prop :=
  ∀ page : Option (τ ×ₗ ι) → List (Stamped ι τ ρ),
    (∀ cursor, (query (.after limit h cursor)).Answers table (page cursor)) →
      ∃ result, Keyset.enumerate Stamped.cursor page limit (rows.length + 1) none = some result ∧
        result.Perm rows

/-- The jobs of a document. -/
def jobsOf (jobs : DbTable ι τ AnalysisJob) (documentId : Uuid) : List (Stamped ι τ AnalysisJob) :=
  jobs.rows.filter fun job => job.row.documentId = documentId

/-- The documents of a project that have the status that is asked for. -/
def documentsOf (documents : DbTable ι τ Document) (projectId : Uuid)
    (status : Option DocumentStatus) : List (Stamped ι τ Document) :=
  documents.rows.filter fun document =>
    document.row.projectId = projectId && status.all fun status => document.row.status = status

/-! ## The queries as pages -/

/-- A page after a cursor has that cursor. -/
theorem cursor_after (limit : ℕ) (h : 1 ≤ limit) (cursor : Option (τ ×ₗ ι)) :
    (Pagination.keyset (.after limit h cursor)).cursor = cursor.map ofLex := by
  cases cursor <;> rfl

/-- No two rows have one cursor. -/
theorem DbTable.eq_of_cursor (table : DbTable ι τ ρ) : ∀ x ∈ table.rows, ∀ y ∈ table.rows,
    x.cursor = y.cursor → x = y := by
  intro x hx y hy heq
  have hid : x.id = y.id := congrArg (fun c => (ofLex c).2) heq
  exact List.inj_on_of_nodup_map table.distinct hx hy hid

/-- The cursor goes first by the time of creation. -/
theorem createdAt_mono (x y : Stamped ι τ ρ) (h : x.cursor ≤ y.cursor) :
    x.createdAt ≤ y.createdAt := by
  rcases Prod.Lex.le_iff.mp h with hlt | ⟨heq, -⟩
  · exact hlt.le
  · exact heq.le

/-- A page of jobs is a page in the order of `created_at`. -/
theorem answers_listByDocument {jobs : DbTable ι τ AnalysisJob} {documentId : Uuid} {limit : ℕ}
    {h : 1 ≤ limit} {cursor : Option (τ ×ₗ ι)} {page : List (Stamped ι τ AnalysisJob)} :
    (AnalysisJobRepository.listByDocument documentId (.keyset (.after limit h cursor))).Answers
        jobs.rows page ↔
      Keyset.IsPage Stamped.createdAt limit
        (Keyset.matching Stamped.cursor (jobsOf jobs documentId) cursor) page := by
  have hfilter : jobs.rows.filter (AnalysisJobRepository.listByDocument documentId
      (.keyset (.after limit h cursor))).condition =
        Keyset.matching Stamped.cursor (jobsOf jobs documentId) cursor := by
    unfold Keyset.matching jobsOf
    rw [List.filter_filter]
    refine List.filter_congr fun job _ => ?_
    simp only [AnalysisJobRepository.listByDocument, cursor_after]
    rw [Bool.and_comm]
    cases cursor with
    | none => rfl
    | some c =>
        congr 1
        simp [Stamped.cursor, Prod.Lex.lt_iff]
  unfold Select.Answers Keyset.IsPage
  rw [hfilter]
  rfl

/-- A page of documents is a page in the order of the cursor. -/
theorem answers_listForProject {documents : DbTable ι τ Document} {projectId : Uuid}
    {status : Option DocumentStatus} {limit : ℕ} {h : 1 ≤ limit} {cursor : Option (τ ×ₗ ι)}
    {page : List (Stamped ι τ Document)} :
    (DocumentRepository.listForProject projectId (.keyset (.after limit h cursor)) status).Answers
        documents.rows page ↔
      Keyset.IsPage Stamped.cursor limit
        (Keyset.matching Stamped.cursor (documentsOf documents projectId status) cursor) page := by
  have hfilter : documents.rows.filter (DocumentRepository.listForProject projectId
      (.keyset (.after limit h cursor)) status).condition =
        Keyset.matching Stamped.cursor (documentsOf documents projectId status) cursor := by
    unfold Keyset.matching documentsOf
    rw [List.filter_filter]
    refine List.filter_congr fun document _ => ?_
    simp only [DocumentRepository.listForProject, cursor_after]
    rw [Bool.and_comm]
    cases cursor with
    | none => rfl
    | some c => rfl
  have horder : (DocumentRepository.listForProject projectId
      (.keyset (.after limit h cursor)) status).orderBy =
        fun a b : Stamped ι τ Document => b.cursor ≤ a.cursor := by
    funext a b
    apply propext
    rw [Prod.Lex.le_iff]
    rfl
  unfold Select.Answers Keyset.IsPage
  rw [hfilter, horder]
  rfl

/-! ## When every row comes once -/

/-- No row is there twice. -/
theorem nodup_rows (table : DbTable ι τ ρ) : table.rows.Nodup := table.distinct.of_map _

/-- **Jobs** are listed once each exactly when no page ends among jobs of one time. -/
theorem eachOnce_listByDocument_iff (jobs : DbTable ι τ AnalysisJob) (documentId : Uuid) (limit : ℕ)
    (h : 1 ≤ limit) :
    EachOnce (fun page => AnalysisJobRepository.listByDocument documentId (.keyset page)) jobs.rows
        (jobsOf jobs documentId) limit h ↔
      Keyset.Clean Stamped.createdAt limit (jobsOf jobs documentId) := by
  have hkeys : ∀ x ∈ jobsOf jobs documentId, ∀ y ∈ jobsOf jobs documentId,
      x.cursor = y.cursor → x = y := fun x hx y hy =>
    jobs.eq_of_cursor x (List.mem_of_mem_filter hx) y (List.mem_of_mem_filter hy)
  rw [← Keyset.enumerate_perm_iff createdAt_mono h hkeys ((nodup_rows jobs).filter _)]
  unfold EachOnce
  refine forall_congr' fun page => imp_congr_left ?_
  exact forall_congr' fun cursor => answers_listByDocument

/-- The documents of a project are told apart by what the query sorts by. -/
theorem size_cursor_le (table : DbTable ι τ ρ) (p : Stamped ι τ ρ → Bool) (c : τ ×ₗ ι) :
    Keyset.size Stamped.cursor (table.rows.filter p) c ≤ 1 := by
  have hnodup : ((table.rows.filter p).map Stamped.cursor).Nodup := by
    refine List.Nodup.map_on (fun x hx y hy heq => ?_) ((nodup_rows table).filter _)
    exact table.eq_of_cursor x (List.mem_of_mem_filter hx) y (List.mem_of_mem_filter hy) heq
  have hcount := List.nodup_iff_count_le_one.mp hnodup c
  rw [List.count_eq_countP, List.countP_map] at hcount
  have hsize : Keyset.size Stamped.cursor (table.rows.filter p) c =
      (table.rows.filter p).countP ((· == c) ∘ Stamped.cursor) := by
    unfold Keyset.size
    refine List.countP_congr fun row _ => ?_
    simp
  rw [hsize]
  exact hcount

/-- **Documents** are listed once each. -/
theorem eachOnce_listForProject (documents : DbTable ι τ Document) (projectId : Uuid)
    (status : Option DocumentStatus) (limit : ℕ) (h : 1 ≤ limit) :
    EachOnce (fun page => DocumentRepository.listForProject projectId (.keyset page) status)
      documents.rows (documentsOf documents projectId status) limit h := by
  intro page hpages
  refine Keyset.enumerate_perm (fun _ _ hle => hle) h (size_cursor_le documents _)
    fun cursor => ?_
  exact answers_listForProject.mp (hpages cursor)

/-- **When both listings bring every row exactly once**: always for the documents of a project, and
for the jobs of a document if no page can end inside a group of jobs that were created at the same
time. -/
theorem listings_each_once_iff (jobs : DbTable ι τ AnalysisJob) (documents : DbTable ι τ Document)
    (documentId projectId : Uuid) (status : Option DocumentStatus) (limit : ℕ) (h : 1 ≤ limit) :
    (EachOnce (fun page => AnalysisJobRepository.listByDocument documentId (.keyset page))
        jobs.rows (jobsOf jobs documentId) limit h ∧
      EachOnce (fun page => DocumentRepository.listForProject projectId (.keyset page) status)
        documents.rows (documentsOf documents projectId status) limit h) ↔
      Keyset.Clean Stamped.createdAt limit (jobsOf jobs documentId) := by
  rw [eachOnce_listByDocument_iff]
  exact and_iff_left (eachOnce_listForProject documents projectId status limit h)

/-- Two jobs of one document, created at the same time. -/
def twinJobs : DbTable ℕ ℕ AnalysisJob where
  rows := [⟨1, 5, { documentId := (9, 0) }⟩, ⟨2, 5, { documentId := (9, 0) }⟩]
  distinct := by decide

/-- Jobs of one time, and no documents. -/
theorem listings_of_twins :
    (EachOnce (fun page => AnalysisJobRepository.listByDocument (9, 0) (.keyset page))
        twinJobs.rows (jobsOf twinJobs (9, 0)) 3 (by decide) ∧
      EachOnce (fun page => DocumentRepository.listForProject (9, 1) (.keyset page) none)
        ([] : List (Stamped ℕ ℕ Document)) (documentsOf ⟨[], List.nodup_nil⟩ (9, 1) none) 3
          (by decide)) ↔
      Keyset.Clean Stamped.createdAt 3 (jobsOf twinJobs (9, 0)) :=
  listings_each_once_iff twinJobs ⟨[], List.nodup_nil⟩ (9, 0) (9, 1) none 3 (by decide)

/-- With one job on a page the database may lose one of them. -/
theorem twin_lost :
    ¬ ∀ (jobs : DbTable ℕ ℕ AnalysisJob) (documents : DbTable ℕ ℕ Document) (documentId projectId : Uuid)
      (status : Option DocumentStatus) (limit : ℕ) (h : 1 ≤ limit),
      EachOnce (fun page => AnalysisJobRepository.listByDocument documentId (.keyset page))
          jobs.rows (jobsOf jobs documentId) limit h ∧
        EachOnce (fun page => DocumentRepository.listForProject projectId (.keyset page) status)
          documents.rows (documentsOf documents projectId status) limit h := by
  intro hall
  have honce := (hall twinJobs ⟨[], List.nodup_nil⟩ (9, 0) (9, 1) none 1 (by decide)).1
  rw [eachOnce_listByDocument_iff] at honce
  refine honce 5 ?_ 1 ?_ <;> decide

end SyncBack
