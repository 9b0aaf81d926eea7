import SyncBack.Application.ReviewRules
import SyncBack.Properties.PagesOnce
import SyncBack.Services.ExportPages

/-!
# The export reads all accepted changes

The pages are slices of one list: `created_at` and `id` together leave the database no choice of an
order (`page_eq_slice`). At the beginning of each round the loop has collected the part of the list
before its offset (`readPages_eq`).
-/

namespace SyncBack

namespace ExportPages

open Txn
open ReviewExports (exportPageSize)

variable {ι τ : Type} [LinearOrder ι] [LinearOrder τ] {suggestions : DbTable ι τ Suggestion}

/-- The suggestions of a job that have a status. -/
def suggestionsOf (suggestions : DbTable ι τ Suggestion) (jobId : Uuid)
    (status : SuggestionStatus) : List (Stamped ι τ Suggestion) :=
  suggestions.rows.filter fun suggestion =>
    suggestion.row.analysisJobId = jobId && suggestion.row.status = status

/-- They are in the order of `(created_at, id)`. -/
def InOrder (rows : List (Stamped ι τ Suggestion)) : Prop :=
  rows.Pairwise fun a b => a.cursor < b.cursor

/-! ## One order -/

/-- The pages are in the order of the cursor. -/
theorem orderBy_iff {jobId : Uuid} {status : SuggestionStatus} {limit offset : ℕ}
    {a b : Stamped ι τ Suggestion} :
    (listByAnalysisJobAndStatusPage jobId status limit offset).orderBy a b ↔
      a.cursor ≤ b.cursor := by
  rw [Prod.Lex.le_iff]
  rfl

/-- No two rows have the same place in the order. -/
theorem inOrder_of_orderBy {jobId : Uuid} {status : SuggestionStatus} {limit offset : ℕ}
    {rows : List (Stamped ι τ Suggestion)}
    (hperm : rows.Perm (suggestionsOf suggestions jobId status))
    (hsorted : rows.Pairwise (listByAnalysisJobAndStatusPage jobId status limit offset).orderBy) :
    InOrder rows := by
  have hnodup : rows.Nodup :=
    hperm.nodup_iff.mpr ((List.Nodup.of_map _ suggestions.distinct).filter _)
  refine (hsorted.and hnodup).imp_of_mem fun {a b} ha hb h => ?_
  obtain ⟨hle, hne⟩ := h
  have hmem : ∀ x ∈ rows, x ∈ suggestions.rows := fun x hx =>
    (List.mem_filter.mp (hperm.subset hx)).1
  refine lt_of_le_of_ne (orderBy_iff.mp hle) fun heq => hne ?_
  exact suggestions.eq_of_cursor a (hmem a ha) b (hmem b hb) heq

/-- Rows in order are known by which they are. -/
theorem InOrder.eq_of_perm {l l' : List (Stamped ι τ Suggestion)} (h : InOrder l)
    (h' : InOrder l') (hperm : l.Perm l') : l = l' :=
  hperm.eq_of_pairwise (fun _ _ _ _ hab hba => absurd hba hab.asymm) h h'

/-- **Every page is a slice of one list**, the suggestions in order. -/
theorem page_eq_slice (reads : Reads suggestions) (jobId : Uuid) (status : SuggestionStatus) :
    ∃ rows, rows.Perm (suggestionsOf suggestions jobId status) ∧ InOrder rows ∧
      ∀ limit offset, reads.page jobId status limit offset = Offsets.slice rows limit offset := by
  obtain ⟨rows, hperm, hsorted, -⟩ := reads.permitted jobId status 0 0
  have horder := inOrder_of_orderBy hperm hsorted
  refine ⟨rows, hperm, horder, fun limit offset => ?_⟩
  obtain ⟨rows', hperm', hsorted', hpage⟩ := reads.permitted jobId status limit offset
  have hsame : rows' = rows :=
    (inOrder_of_orderBy hperm' hsorted').eq_of_perm horder (hperm'.trans hperm.symm)
  rw [hpage, hsame]
  rfl

/-- A database that sorts answers every query. -/
def Reads.sorted (suggestions : DbTable ι τ Suggestion) : Reads suggestions where
  page jobId status limit offset := Offsets.slice ((suggestionsOf suggestions jobId status).insertionSort
    fun a b => a.cursor ≤ b.cursor) limit offset
  permitted jobId status limit offset := by
    have : Std.Total fun a b : Stamped ι τ Suggestion => a.cursor ≤ b.cursor :=
      ⟨fun a b => le_total a.cursor b.cursor⟩
    have : IsTrans (Stamped ι τ Suggestion) fun a b => a.cursor ≤ b.cursor :=
      ⟨fun _ _ _ => le_trans⟩
    refine ⟨_, List.perm_insertionSort _ _, ?_, rfl⟩
    exact (List.pairwise_insertionSort _ _).imp orderBy_iff.mpr

/-! ## The loop -/

/-- **The rounds of the loop**: before the page `page` it has collected the changes of the pages
before it. -/
theorem readPages_eq {reads : Reads suggestions} {jobId : Uuid}
    {rows : List (Stamped ι τ Suggestion)}
    (hpages : ∀ offset, reads.page jobId .accepted exportPageSize offset =
      Offsets.slice rows exportPageSize offset) :
    ∀ {fuel page : ℕ}, page ≤ rows.length / exportPageSize →
      rows.length / exportPageSize < page + fuel →
        readPages reads jobId fuel (page * exportPageSize)
            ((rows.take (page * exportPageSize)).map fun s => toSectionChange s.row) =
          some (rows.map fun s => toSectionChange s.row)
  | 0, page, hpage, hfuel => by omega
  | fuel + 1, page, hpage, hfuel => by
      have hsize : 0 < exportPageSize := by decide
      rw [readPages]
      dsimp only
      rw [hpages, ← List.map_append, Offsets.take_append_slice]
      split
      · -- the pages before were full, and have brought everything
        rename_i hempty
        rw [List.isEmpty_iff, Offsets.slice_eq_nil_iff hsize] at hempty
        rw [List.take_of_length_le hempty]
      · split
        · rename_i hshort
          rw [Offsets.take_of_short hsize hshort]
        · rename_i hfull
          rw [← Nat.succ_mul]
          exact readPages_eq hpages (Offsets.next_page hsize hfull) (by omega)

/-- **The loop from the first page on.** -/
theorem iterAcceptedChangesPages_eq {reads : Reads suggestions} {document : Document}
    {jobId : Uuid} (hjob : document.currentAnalysisJobId = some jobId)
    {rows : List (Stamped ι τ Suggestion)}
    (hpages : ∀ offset, reads.page jobId .accepted exportPageSize offset =
      Offsets.slice rows exportPageSize offset)
    {fuel : ℕ} (hfuel : rows.length / exportPageSize < fuel) :
    iterAcceptedChangesPages reads fuel document =
      some (rows.map fun s => toSectionChange s.row) := by
  have hloop := readPages_eq hpages (Nat.zero_le _) (hfuel.trans_eq (Nat.zero_add fuel).symm)
  rw [Nat.zero_mul, List.take_zero, List.map_nil] at hloop
  rw [iterAcceptedChangesPages, hjob]
  exact hloop

/-- The text of a change is the user's own where there is one. -/
theorem newText_toSectionChange (suggestion : Suggestion) :
    (∀ text, suggestion.editedText = some text → text ≠ [] →
      (toSectionChange suggestion).newText = some text) ∧
    (suggestion.editedText.getD [] = [] →
      (toSectionChange suggestion).newText = suggestion.suggestedText) := by
  constructor
  · intro text hedited hne
    simp only [toSectionChange, hedited, Option.getD_some, if_neg hne]
  · intro hempty
    simp only [toSectionChange, if_pos hempty]

/-! ## The loop of a review -/

omit [LinearOrder ι] [LinearOrder τ] in
/-- The review reads the same changes in its transaction, where its rows are in the same order. -/
theorem ensures_iterAcceptedChangesPages {t : Process} {s₀ s : AppDb} {rows : Rows}
    (h : s₀.Rewrites t rows s) {document : Loaded Document}
    {accepted : List (Stamped ι τ Suggestion)}
    (hnone : document.row.currentAnalysisJobId = none → accepted = [])
    (hsame : ∀ jobId, document.row.currentAnalysisJobId = some jobId →
      rows.suggestions s₀.keys jobId .accepted = accepted.map fun suggestion => suggestion.row)
    {fuel : ℕ} (hfuel : accepted.length / exportPageSize < fuel) :
    (ReviewExports.iterAcceptedChangesPages (fun _ => false) fuel document).Ensures t s
      (ending
        (fun changes s' => s' = s ∧ changes =
          accepted.map fun suggestion => (toSectionChange suggestion.row).toAppliedChange)
        fun _ _ => False) := by
  rcases hjob : document.row.currentAnalysisJobId with _ | jobId
  · simp only [ReviewExports.iterAcceptedChangesPages, hjob, hnone hjob]
    exact ⟨rfl, rfl⟩
  · have hrows := hsame jobId hjob
    have hlength : (rows.suggestions s₀.keys jobId .accepted).length = accepted.length := by
      rw [hrows, List.length_map]
    simp only [ReviewExports.iterAcceptedChangesPages, hjob]
    rw [← hlength] at hfuel
    refine (ensures_readPages h fuel 0 (Nat.zero_le _) (by omega)).mono fun r s' hr => ?_
    rcases r with e | changes
    · obtain ⟨-, q, -, hfails⟩ := hr
      cases hfails
    · obtain ⟨rfl, rfl, -⟩ := hr
      refine ⟨rfl, ?_⟩
      rw [Nat.zero_mul, List.drop_zero, hrows, List.map_map]
      rfl

/-- **The export reads each accepted suggestion of the current job once, in order**, and so does the
review that exports in its own transaction. -/
theorem exported_changes (suggestions : DbTable ι τ Suggestion) (reads : Reads suggestions)
    (document : Document) :
    ∃ accepted : List (Stamped ι τ Suggestion),
      accepted.Perm (suggestions.rows.filter fun suggestion =>
        document.currentAnalysisJobId = some suggestion.row.analysisJobId ∧
          suggestion.row.status = .accepted) ∧
      InOrder accepted ∧
      (∀ fuel, accepted.length / exportPageSize < fuel →
        iterAcceptedChangesPages reads fuel document =
          some (accepted.map fun suggestion => toSectionChange suggestion.row)) ∧
      (∀ suggestion ∈ accepted,
        (∀ text, suggestion.row.editedText = some text → text ≠ [] →
          (toSectionChange suggestion.row).newText = some text) ∧
        (suggestion.row.editedText.getD [] = [] →
          (toSectionChange suggestion.row).newText = suggestion.row.suggestedText)) ∧
      ∀ (t : Process) (s₀ s : AppDb) (rows : Rows) (id : Uuid) (fuel : ℕ), s₀.Rewrites t rows s →
        (∀ jobId, document.currentAnalysisJobId = some jobId →
          rows.suggestions s₀.keys jobId .accepted = accepted.map fun suggestion => suggestion.row) →
        accepted.length / exportPageSize < fuel →
          (ReviewExports.iterAcceptedChangesPages (fun _ => false) fuel ⟨id, document⟩).Ensures t s
            (ending
              (fun changes s' => s' = s ∧ changes =
                accepted.map fun suggestion => (toSectionChange suggestion.row).toAppliedChange)
              fun _ _ => False) := by
  rcases hjob : document.currentAnalysisJobId with _ | jobId
  · refine ⟨[], ?_, List.Pairwise.nil, fun fuel _ => ?_,
      fun _ hmem => absurd hmem List.not_mem_nil, fun t s₀ s rows id fuel h _ hfuel => ?_⟩
    · simp
    · rw [iterAcceptedChangesPages, hjob]
      rfl
    · refine ensures_iterAcceptedChangesPages h (fun _ => rfl) (fun jobId hcurrent => ?_) hfuel
      rw [hjob] at hcurrent
      cases hcurrent
  · obtain ⟨accepted, hperm, horder, hpages⟩ := page_eq_slice reads jobId .accepted
    refine ⟨accepted, ?_, horder,
      fun _ hfuel => iterAcceptedChangesPages_eq hjob (hpages exportPageSize) hfuel,
      fun s _ => newText_toSectionChange s.row, fun t s₀ s rows id fuel h hsame hfuel => ?_⟩
    · refine hperm.trans (List.Perm.of_eq (List.filter_congr fun s _ => ?_))
      simp [eq_comm]
    · refine ensures_iterAcceptedChangesPages h (fun hnone => ?_) (fun jobId' hcurrent => ?_) hfuel
      · rw [hjob] at hnone
        cases hnone
      · exact hsame jobId' (hjob ▸ hcurrent)

end ExportPages

end SyncBack
