import SyncBack.Infrastructure.Listings
import SyncBack.Services.ReviewExports

/-!
# The accepted changes page by page

The loop of the export over the pages of accepted suggestions, with `created_at` and `id` of the
rows. `ReviewExports` has the same loop inside the transaction of a review, where rows come in the
order of their insertion; here the database answers each query in any order that its `ORDER BY`
permits.

Source: `app/domain/services/document_export_service.py`,
`app/infrastructure/db/repositories/suggestion_repository.py`.
-/

namespace SyncBack

namespace ExportPages

open ReviewExports (exportPageSize)

variable {ι τ : Type} [LinearOrder ι] [LinearOrder τ]

/-- Source: `AppliedChange`, with the reference to a section. -/
structure SectionChange extends AppliedChange where
  sectionRef : Text
  deriving DecidableEq

/-- The element of `changes.extend(…)` for a suggestion. -/
def toSectionChange (suggestion : Suggestion) : SectionChange where
  sectionRef := suggestion.sectionRef
  changeType := suggestion.changeType
  oldText := suggestion.originalText
  newText := if suggestion.editedText.getD [] = [] then suggestion.suggestedText
    else suggestion.editedText

/-- Source: `SuggestionRepository.list_by_analysis_job_and_status_page`. -/
def listByAnalysisJobAndStatusPage (analysisJobId : Uuid) (status : SuggestionStatus)
    (limit offset : ℕ) : Select (Stamped ι τ Suggestion) where
  condition suggestion :=
    suggestion.row.analysisJobId = analysisJobId && suggestion.row.status = status
  orderBy a b := a.createdAt < b.createdAt ∨ (a.createdAt = b.createdAt ∧ a.id ≤ b.id)
  limit := limit
  offset := offset

/-- A repository over a table that nobody writes: what each of its queries returns, in an order that
the query permits. -/
structure Reads (suggestions : DbTable ι τ Suggestion) where
  page : Uuid → SuggestionStatus → ℕ → ℕ → List (Stamped ι τ Suggestion)
  permitted : ∀ jobId status limit offset,
    (listByAnalysisJobAndStatusPage jobId status limit offset).Answers suggestions.rows
      (page jobId status limit offset)

variable {suggestions : DbTable ι τ Suggestion}

/-- The loop `while True`; `none` when the fuel does not suffice for its rounds. -/
def readPages (reads : Reads suggestions) (jobId : Uuid) :
    ℕ → ℕ → List SectionChange → Option (List SectionChange)
  | 0, _, _ => none
  | fuel + 1, offset, changes =>
      let page := reads.page jobId .accepted exportPageSize offset
      if page.isEmpty then some changes
      else
        let extended := changes ++ page.map fun suggestion => toSectionChange suggestion.row
        if page.length < exportPageSize then some extended
        else readPages reads jobId fuel (offset + exportPageSize) extended

/-- Source: `DocumentExportService._iter_accepted_changes_pages`. -/
def iterAcceptedChangesPages (reads : Reads suggestions) (fuel : ℕ) (document : Document) :
    Option (List SectionChange) :=
  match document.currentAnalysisJobId with
  | none => some []
  | some jobId => readPages reads jobId fuel 0 []

end ExportPages

end SyncBack
