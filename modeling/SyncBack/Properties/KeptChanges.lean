import SyncBack.Infrastructure.Exporters
import SyncBack.Workers.SuggestionMapper

/-!
# What the mapper keeps

An item of an answer is kept when the text that it points at stands in the document, and becomes a
suggestion (`Kept`, `changeOf`). A property of the suggestions of a batch is one of its kept items
(`forall_kept_iff`).
-/

namespace SyncBack

/-- A kept item has a non-empty stripped fragment in the document. -/
theorem skipReason_eq_none {item : LLMSuggestionItem} {text : Text} {single : Bool}
    (h : SuggestionMapper.skipReason item text single = none) :
    (∃ changeType, SuggestionMapper.changeTypeMap item.changeType = some changeType) ∧
      strip (item.oldText.getD []) ≠ [] ∧ strip (item.oldText.getD []) <:+: text := by
  unfold SuggestionMapper.skipReason at h
  split at h
  · cases h
  rename_i htype
  refine ⟨Option.ne_none_iff_exists'.mp htype, ?_⟩
  simp only at h
  split at h
  · split at h
    · cases h
    · split at h
      · exact ⟨by assumption, by assumption⟩
      · cases h
  · split at h
    · cases h
    · split at h
      · cases h
      · split at h
        · exact ⟨by assumption, by assumption⟩
        · cases h

/-- `add` alone is read as an addition. -/
theorem changeTypeMap_add_iff {value : String} {changeType : ChangeType}
    (h : SuggestionMapper.changeTypeMap value = some changeType) :
    changeType = .add ↔ value = "add" := by
  unfold SuggestionMapper.changeTypeMap at h
  by_cases hadd : value = "add"
  · simp_all
  · rw [if_neg hadd] at h
    have hne : changeType ≠ .add := by
      rintro rfl
      split at h
      · cases h
      · split at h <;> cases h
    simp [hadd, hne]

/-- The kept suggestions of a batch, item by item. -/
theorem mem_mapToSuggestions {batch : List LLMSuggestionItem} {jobId documentId : Uuid}
    {text : Text} {format : DocumentFormat} {s : Suggestion} :
    s ∈ SuggestionMapper.mapToSuggestions batch jobId documentId text format ↔
      ∃ raw ∈ batch, SuggestionMapper.mapItem jobId documentId text format raw = some s := by
  simp [SuggestionMapper.mapToSuggestions, List.mem_filterMap]

/-- The item is kept by the mapper. -/
def Kept (text : Text) (format : DocumentFormat) (raw : LLMSuggestionItem) : Prop :=
  SuggestionMapper.skipReason (SuggestionMapper.prepare text raw).1 text
    (SuggestionMapper.singleParagraph format) = none

/-- The change that a kept item becomes when it is accepted without edits. -/
def changeOf (text : Text) (raw : LLMSuggestionItem) (changeType : ChangeType) : AppliedChange where
  changeType := changeType
  oldText := (SuggestionMapper.prepare text raw).1.oldText
  newText := (SuggestionMapper.prepare text raw).1.newText

/-- A property of the changes of all kept suggestions is one of the kept items. -/
theorem forall_kept_iff {batch : List LLMSuggestionItem} {jobId documentId : Uuid} {text : Text}
    {format : DocumentFormat} (P : AppliedChange → Prop) :
    (∀ s ∈ SuggestionMapper.mapToSuggestions batch jobId documentId text format, P s.toChange) ↔
      ∀ raw ∈ batch, Kept text format raw → ∀ changeType,
        SuggestionMapper.changeTypeMap (SuggestionMapper.prepare text raw).1.changeType =
          some changeType → P (changeOf text raw changeType) := by
  constructor
  · intro h raw hraw hkept changeType htype
    have hmem : ∃ s, SuggestionMapper.mapItem jobId documentId text format raw = some s ∧
        s.toChange = changeOf text raw changeType := by
      unfold Kept at hkept
      simp only [SuggestionMapper.mapItem, hkept, htype, Option.map_some]
      exact ⟨_, rfl, rfl⟩
    obtain ⟨s, hs, hchange⟩ := hmem
    rw [← hchange]
    exact h s (mem_mapToSuggestions.mpr ⟨raw, hraw, hs⟩)
  · intro h s hs
    obtain ⟨raw, hraw, hs⟩ := mem_mapToSuggestions.mp hs
    simp only [SuggestionMapper.mapItem] at hs
    split at hs
    · cases hs
    · rename_i hkept
      obtain ⟨changeType, htype, hs⟩ := Option.map_eq_some_iff.mp hs
      rw [← hs]
      exact h raw hraw hkept changeType htype

end SyncBack
