import SyncBack.Infrastructure.LlmSchemas
import SyncBack.Properties.AppendedText

/-!
# What the table of suggestions accepts

An item passes the schema of the answer and the mapper, and its suggestion must then satisfy the
columns of the table. The schema sees to the score and the mapper to the change type; nobody looks
at the length of the reference to the section, nor for the character that PostgreSQL cannot store
in a text. `kept_suggestions_storable_iff` reads the rest off the item as it came
(`storedTexts`).
-/

set_option linter.unusedSectionVars false

namespace SyncBack

/-- `U+0000`. -/
def nul : Char := '\x00'

/-- The constraints of the columns. Source: `app/infrastructure/db/models/suggestion.py`; the
change type and the status are checked by their types. -/
structure Suggestion.Storable (row : Suggestion) : Prop where
  sectionRef_length : row.sectionRef.length ≤ 500
  confidence_range : ∀ score ∈ row.confidenceScore, 0 ≤ score ∧ score ≤ 1
  sectionRef_noNul : nul ∉ row.sectionRef
  originalText_noNul : nul ∉ row.originalText.getD []
  suggestedText_noNul : nul ∉ row.suggestedText.getD []
  editedText_noNul : nul ∉ row.editedText.getD []
  rationale_noNul : nul ∉ row.rationale.getD []

/-- The texts of an item that are stored with its suggestion, beside the reference and the
rationale: the anchor and the block of an addition, and of the other changes what they replace and
what they write. -/
def storedTexts (documentText : Text) (item : LLMSuggestionItem) : List Text :=
  let old := item.oldText.getD []
  let new := item.newText.getD []
  let anchor := strip (SuggestionMapper.firstNonEmpty item.insertAfter item.oldText)
  if item.changeType = "add" then
    [if anchor = [] then (SuggestionMapper.inferAnchor documentText item.sectionRef).getD []
      else anchor, new]
  else if item.changeType = "modify" ∧ strip old ≠ [] ∧ strip new = [] then [old]
  else if item.changeType = "modify" ∧ AppendsTo old new then
    [SuggestionMapper.lastParagraph (strip old), appended old new]
  else [old, new]

/-! ## Where the character stays -/

/-- Stripping takes only whitespace away. -/
theorem nul_mem_strip_iff {text : Text} : nul ∈ strip text ↔ nul ∈ text := by
  refine ⟨fun h => (Strings.strip_infix isSpace text).subset h, fun h => ?_⟩
  have hlead : nul ∉ Strings.lead isSpace text := fun h => by
    have hspace : isSpace nul = true := List.mem_takeWhile_imp h
    cases hspace
  have htrail : nul ∉ Strings.trail isSpace text := fun h => by
    have hspace : isSpace nul = true := List.mem_rtakeWhile_imp h
    cases hspace
  rw [← Strings.lead_strip_trail isSpace text, List.mem_append, List.mem_append] at h
  exact (h.resolve_left hlead).resolve_right htrail

/-- Stripping spaces leaves every U+0000. -/
theorem nul_mem_rdropWhile_iff {text : Text} : nul ∈ text.rdropWhile isSpace ↔ nul ∈ text := by
  refine ⟨fun h => (List.rdropWhile_prefix _ _).subset h, fun h => ?_⟩
  have htrail : nul ∉ text.rtakeWhile isSpace := fun h => by
    have hspace : isSpace nul = true := List.mem_rtakeWhile_imp h
    cases hspace
  rw [← List.rdropWhile_append_rtakeWhile (p := isSpace) (l := text), List.mem_append] at h
  exact h.resolve_right htrail

namespace SuggestionMapper

/-- The note of an inferred anchor repeats the reference to the section. -/
theorem nul_mem_withInferredNote_iff {rationale : Option Text} {sectionRef : Text} :
    nul ∈ withInferredNote rationale sectionRef ↔
      nul ∈ rationale.getD [] ∨ nul ∈ sectionRef := by
  have hbegin : nul ∉ "Место вставки выбрано автоматически: после первого абзаца раздела «".toList := by
    decide +kernel
  have hend : nul ∉ "».".toList := by decide
  have hnote : nul ∈ "Место вставки выбрано автоматически: после первого абзаца раздела «".toList ++
      sectionRef ++ "».".toList ↔ nul ∈ sectionRef := by
    rw [List.mem_append, List.mem_append, or_iff_right hbegin, or_iff_left hend]
  have hspace : nul ≠ ' ' := by decide
  unfold withInferredNote
  cases rationale with
  | none => simpa using hnote
  | some text =>
      simp only [Option.getD_some]
      split
      · next hblank =>
        have htext : nul ∉ text := by
          rw [← nul_mem_strip_iff, hblank]
          exact List.not_mem_nil
        rw [hnote, or_iff_right htext]
      · rw [List.mem_append, List.mem_cons, or_iff_right hspace, hnote, nul_mem_rdropWhile_iff]

/-- What preparing an item leaves alone. -/
theorem prepare_frame (documentText : Text) (raw : LLMSuggestionItem) :
    (prepare documentText raw).1.sectionRef = raw.sectionRef ∧
      (prepare documentText raw).1.rationale = raw.rationale ∧
      (prepare documentText raw).1.confidenceScore = raw.confidenceScore := by
  have hnormal : (normalize raw).sectionRef = raw.sectionRef ∧
      (normalize raw).rationale = raw.rationale ∧
      (normalize raw).confidenceScore = raw.confidenceScore := by
    unfold normalize
    simp only
    split
    · exact ⟨rfl, rfl, rfl⟩
    · split
      · exact ⟨rfl, rfl, rfl⟩
      · split <;> exact ⟨rfl, rfl, rfl⟩
  have hresolved : ∀ item : LLMSuggestionItem,
      (resolveAnchor item documentText).1.sectionRef = item.sectionRef ∧
        (resolveAnchor item documentText).1.rationale = item.rationale ∧
        (resolveAnchor item documentText).1.confidenceScore = item.confidenceScore := by
    intro item
    unfold resolveAnchor
    simp only
    split
    · exact ⟨rfl, rfl, rfl⟩
    · split <;> exact ⟨rfl, rfl, rfl⟩
  obtain ⟨h₁, h₂, h₃⟩ := hresolved (normalize raw)
  exact ⟨h₁.trans hnormal.1, h₂.trans hnormal.2.1, h₃.trans hnormal.2.2⟩

/-- The two texts of a prepared item, read off the item as it came. -/
theorem nul_free_prepare_iff (documentText : Text) (raw : LLMSuggestionItem) :
    (nul ∉ (prepare documentText raw).1.oldText.getD [] ∧
        nul ∉ (prepare documentText raw).1.newText.getD []) ↔
      ∀ text ∈ storedTexts documentText raw, nul ∉ text := by
  have hother : raw.changeType ≠ "add" → normalize raw = raw →
      (prepare documentText raw).1 = raw := by
    intro hadd hnormal
    unfold prepare resolveAnchor
    rw [hnormal]
    simp only [if_pos hadd]
  by_cases hadd : raw.changeType = "add"
  · -- the anchor, given or inferred, and the block
    have hnormal : normalize raw = raw := by
      unfold normalize
      exact if_pos (by rw [hadd]; decide)
    unfold storedTexts prepare resolveAnchor
    rw [hnormal]
    simp only [hadd, ne_eq, not_true_eq_false, if_false, if_true, ite_not]
    split <;> simp
  by_cases hmodify : raw.changeType = "modify"
  · by_cases hblank : strip (raw.oldText.getD []) ≠ [] ∧ strip (raw.newText.getD []) = []
    · -- a deletion without a new text
      have hnormal : normalize raw = { raw with changeType := "delete", newText := none } := by
        unfold normalize
        simp only [hmodify, ne_eq, not_true_eq_false, if_false, if_pos hblank]
      unfold storedTexts prepare resolveAnchor
      rw [hnormal]
      simp [hmodify, hblank]
    · by_cases happends : AppendsTo (raw.oldText.getD []) (raw.newText.getD [])
      · -- an addition of the tail
        have hprepared := (AppendsTo.appends hmodify happends).prepare_eq documentText
        have hblank' : ¬ (raw.changeType = "modify" ∧ strip (raw.oldText.getD []) ≠ [] ∧
            strip (raw.newText.getD []) = []) := fun h => hblank h.2
        have hstored : storedTexts documentText raw =
            [lastParagraph (strip (raw.oldText.getD [])),
              appended (raw.oldText.getD []) (raw.newText.getD [])] := by
          unfold storedTexts
          dsimp only
          rw [if_neg hadd, if_neg hblank', if_pos ⟨hmodify, happends⟩]
        rw [hprepared, hstored]
        simp [nul_mem_strip_iff]
      · have hnormal : normalize raw = raw := by
          unfold normalize
          simp only [hmodify, ne_eq, not_true_eq_false, if_false, if_neg hblank]
          exact if_neg happends
        rw [hother hadd hnormal]
        unfold storedTexts
        simp [hmodify, hblank, happends]
  · have hnormal : normalize raw = raw := by
      unfold normalize
      exact if_pos hmodify
    rw [hother hadd hnormal]
    unfold storedTexts
    simp [hadd, hmodify]

/-- The suggestion of a kept item satisfies the constraints iff the item fits the columns. -/
theorem storable_mapItem_iff {jobId documentId : Uuid} {documentText : Text}
    {format : DocumentFormat} {item : LLMHttpSuggestionItem} {row : Suggestion}
    (h : mapItem jobId documentId documentText format item.toItem = some row) :
    row.Storable ↔
      item.sectionRef.length ≤ 500 ∧ nul ∉ item.sectionRef ∧ nul ∉ item.rationale.getD [] ∧
        ∀ text ∈ storedTexts documentText item.toItem, nul ∉ text := by
  obtain ⟨hsection, hrationale, hconfidence⟩ := prepare_frame documentText item.toItem
  rw [← nul_free_prepare_iff]
  simp only [mapItem] at h
  split at h
  · cases h
  obtain ⟨changeType, -, rfl⟩ := Option.map_eq_some_iff.mp h
  have hnote : nul ∉ (if (prepare documentText item.toItem).2 = true then
        some (withInferredNote (prepare documentText item.toItem).1.rationale
          (prepare documentText item.toItem).1.sectionRef)
      else (prepare documentText item.toItem).1.rationale).getD [] ↔
      nul ∉ item.rationale.getD [] ∧
        ((prepare documentText item.toItem).2 = true → nul ∉ item.sectionRef) := by
    rw [hsection, hrationale]
    split
    · next hinferred =>
      rw [Option.getD_some, nul_mem_withInferredNote_iff, not_or]
      exact and_congr_right fun _ => ⟨fun h _ => h, fun h => h hinferred⟩
    · next hinferred => exact (and_iff_left fun h => absurd h hinferred).symm
  constructor
  · intro hrow
    have hlength := hrow.sectionRef_length
    have hnul := hrow.sectionRef_noNul
    simp only [hsection] at hlength hnul
    exact ⟨hlength, hnul, (hnote.mp hrow.rationale_noNul).1, hrow.originalText_noNul,
      hrow.suggestedText_noNul⟩
  · rintro ⟨hlength, hnul, hrationalenul, hold, hnew⟩
    exact {
      sectionRef_length := by
        simp only [hsection]
        exact hlength
      confidence_range := by
        simp only [hconfidence]
        exact item.confidence_range
      sectionRef_noNul := by
        simp only [hsection]
        exact hnul
      originalText_noNul := hold
      suggestedText_noNul := hnew
      editedText_noNul := List.not_mem_nil
      rationale_noNul := hnote.mpr ⟨hrationalenul, fun _ => hnul⟩ }

/-- A kept item has a suggestion. -/
theorem mapItem_isSome_iff {jobId documentId : Uuid} {documentText : Text} {format : DocumentFormat}
    {raw : LLMSuggestionItem} :
    (∃ row, mapItem jobId documentId documentText format raw = some row) ↔
      Kept documentText format raw := by
  unfold mapItem Kept
  constructor
  · rintro ⟨row, h⟩
    simp only at h
    split at h
    · cases h
    · assumption
  · intro hkept
    obtain ⟨⟨changeType, htype⟩, -⟩ := skipReason_eq_none hkept
    simp only [hkept, htype, Option.map_some]
    exact ⟨_, rfl⟩

end SuggestionMapper

/-- **When the table accepts every suggestion of an answer.** Each item that the mapper keeps must
have a reference of at most 500 characters, and no `U+0000` in the texts that are stored of it. -/
theorem kept_suggestions_storable_iff (batch : List LLMHttpSuggestionItem) (jobId documentId : Uuid)
    (documentText : Text) (format : DocumentFormat) :
    (∀ row ∈ SuggestionMapper.mapToSuggestions (batch.map LLMHttpSuggestionItem.toItem) jobId
        documentId documentText format, row.Storable) ↔
      ∀ item ∈ batch, Kept documentText format item.toItem →
        item.sectionRef.length ≤ 500 ∧ nul ∉ item.sectionRef ∧ nul ∉ item.rationale.getD [] ∧
          ∀ text ∈ storedTexts documentText item.toItem, nul ∉ text := by
  constructor
  · intro h item hitem hkept
    obtain ⟨row, hrow⟩ := (@SuggestionMapper.mapItem_isSome_iff jobId documentId _ _ _).mpr hkept
    refine (SuggestionMapper.storable_mapItem_iff hrow).mp (h row (mem_mapToSuggestions.mpr ?_))
    exact ⟨item.toItem, List.mem_map_of_mem hitem, hrow⟩
  · intro h row hrow
    obtain ⟨raw, hraw, hmap⟩ := mem_mapToSuggestions.mp hrow
    obtain ⟨item, hitem, rfl⟩ := List.mem_map.mp hraw
    exact (SuggestionMapper.storable_mapItem_iff hmap).mpr
      (h item hitem (SuggestionMapper.mapItem_isSome_iff.mp ⟨row, hmap⟩))

/-- A reference of 501 characters passes the schema and the mapper. -/
theorem long_sectionRef_kept :
    ¬ ∀ (batch : List LLMHttpSuggestionItem) (jobId documentId : Uuid) (documentText : Text)
      (format : DocumentFormat),
      ∀ row ∈ SuggestionMapper.mapToSuggestions (batch.map LLMHttpSuggestionItem.toItem) jobId
        documentId documentText format, row.Storable := by
  intro h
  let item := LLMHttpSuggestionItem.ofFields (List.replicate 501 'x') "add" none (some ['b'])
    (some ['a']) none none
  obtain ⟨row, hrow⟩ : ∃ row, SuggestionMapper.mapItem (0, 0) (0, 1) ['a'] .txt item.toItem =
      some row := ⟨_, rfl⟩
  have hstorable := h [item] (0, 0) (0, 1) ['a'] .txt row
    (mem_mapToSuggestions.mpr ⟨_, List.mem_singleton.mpr rfl, hrow⟩)
  have hlength := ((SuggestionMapper.storable_mapItem_iff hrow).mp hstorable).1
  revert hlength
  decide +kernel

end SyncBack
