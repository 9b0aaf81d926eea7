import SyncBack.Workers.SuggestionMapper

/-!
# The schema of the answer of the model

What `LLMHttpSuggestionResponse` accepts: an accepted item has a score that is missing or between 0
and 1, whatever number the model gave.

Source: `app/infrastructure/llm/schemas.py`, `app/infrastructure/llm/openai_compatible_client.py`.
-/

namespace SyncBack

/-- A number of the answer, as a float. -/
inductive JsonFloat where
  | finite (value : ℚ)
  | infinite
  | nan
  deriving DecidableEq

/-- Source: `_drop_out_of_range_confidence`. -/
def dropOutOfRangeConfidence : Option JsonFloat → Option ℚ
  | some (.finite value) => if 0 ≤ value ∧ value ≤ 1 then some value else none
  | _ => none

/-- A confidence that is kept lies between 0 and 1. -/
theorem dropOutOfRangeConfidence_range {value : Option JsonFloat} {score : ℚ}
    (h : score ∈ dropOutOfRangeConfidence value) : 0 ≤ score ∧ score ≤ 1 := by
  unfold dropOutOfRangeConfidence at h
  split at h
  · split at h
    · rename_i hrange
      rwa [← Option.some.inj h]
    · cases h
  · cases h

/-- An item that the schema has accepted. Source: `LLMHttpSuggestionItem`. -/
structure LLMHttpSuggestionItem where
  sectionRef : Text
  changeType : String
  oldText : Option Text := none
  newText : Option Text := none
  insertAfter : Option Text := none
  rationale : Option Text := none
  confidenceScore : Option ℚ := none
  confidence_range : ∀ score ∈ confidenceScore, 0 ≤ score ∧ score ≤ 1

namespace LLMHttpSuggestionItem

/-- The item of the fields of the answer. -/
def ofFields (sectionRef : Text) (changeType : String)
    (oldText newText insertAfter rationale : Option Text) (confidence : Option JsonFloat) :
    LLMHttpSuggestionItem where
  sectionRef
  changeType
  oldText
  newText
  insertAfter
  rationale
  confidenceScore := dropOutOfRangeConfidence confidence
  confidence_range := fun _ => dropOutOfRangeConfidence_range

/-- The conversion at the end of `generate_suggestions`. -/
def toItem (item : LLMHttpSuggestionItem) : LLMSuggestionItem where
  sectionRef := item.sectionRef
  changeType := item.changeType
  oldText := item.oldText
  newText := item.newText
  rationale := item.rationale
  confidenceScore := item.confidenceScore
  insertAfter := item.insertAfter

end LLMHttpSuggestionItem

end SyncBack
