import SyncBack.Domain.TextNormalization

/-!
# From the answer of the model to suggestions

The mapper brings each item of the answer to the shape that the exporters can apply, and skips the
items that they cannot. What it writes to the log is left out.

Source: `app/workers/pipeline/suggestion_mapper.py`.
-/

namespace SyncBack

/-- Source: `LLMSuggestionItem`. -/
structure LLMSuggestionItem where
  sectionRef : Text
  changeType : String
  oldText : Option Text
  newText : Option Text
  rationale : Option Text := none
  confidenceScore : Option ℚ := none
  insertAfter : Option Text := none
  deriving DecidableEq

/-- Why an item is skipped. Source: the reasons of `_skip_reason`. -/
inductive SkipReason where
  | unknownChangeType
  | addWithoutAnchor
  | addAnchorNotInDocument
  | oldTextMissing
  | oldTextSpansParagraphs
  | oldTextNotInDocument
  deriving DecidableEq

namespace SuggestionMapper

/-- Source: `_CHANGE_TYPE_MAP`. -/
def changeTypeMap (changeType : String) : Option ChangeType :=
  if changeType = "add" then some .add
  else if changeType = "modify" then some .modify
  else if changeType = "delete" then some .delete
  else none

/-- Source: `_SINGLE_PARAGRAPH_FORMATS`; the caller passes the value of the format. -/
def singleParagraph (documentFormat : DocumentFormat) : Bool :=
  documentFormat ∈ [DocumentFormat.docx, .doc]

/-- Source: `_heading_text`. -/
def headingText (line : Text) : Text :=
  strip (Strings.strip (· = '*') (strip ((strip line).dropWhile (· = '#'))))

/-- The loop of `infer_anchor` over the lines of the document. -/
def anchorInLines (wanted : Text) : List Text → Option Text
  | [] => none
  | line :: rest =>
      if headingText line = wanted then
        match rest.find? fun candidate => strip candidate ≠ [] with
        | some candidate => some (strip candidate)
        | none => some (strip line)
      else anchorInLines wanted rest

/-- Source: `infer_anchor`. -/
def inferAnchor (documentText sectionRef : Text) : Option Text :=
  let wanted := headingText sectionRef
  if wanted = [] then none else anchorInLines wanted (documentText.splitOn '\n')

/-- Source: `_last_paragraph`. -/
def lastParagraph (text : Text) : Text :=
  (((text.splitOn '\n').map strip).filter (· ≠ [])).getLastD []

/-- Source: `_normalize`. -/
def normalize (item : LLMSuggestionItem) : LLMSuggestionItem :=
  if item.changeType ≠ "modify" then item
  else
    let old := strip (item.oldText.getD [])
    let new := strip (item.newText.getD [])
    if old ≠ [] ∧ new = [] then { item with changeType := "delete", newText := none }
    else if old ≠ [] ∧ old.length < new.length ∧ old <+: new then
      { item with
        changeType := "add", oldText := some [], newText := some (strip (new.drop old.length))
        insertAfter := some (lastParagraph old) }
    else item

/-- `a or b or ""` for two optional texts. -/
def firstNonEmpty (a b : Option Text) : Text := if a.getD [] = [] then b.getD [] else a.getD []

/-- Source: `_resolve_anchor`. -/
def resolveAnchor (item : LLMSuggestionItem) (documentText : Text) : LLMSuggestionItem × Bool :=
  if item.changeType ≠ "add" then (item, false)
  else
    let anchor := strip (firstNonEmpty item.insertAfter item.oldText)
    if anchor ≠ [] then ({ item with oldText := some anchor, insertAfter := none }, false)
    else
      let inferred := inferAnchor documentText item.sectionRef
      ({ item with oldText := inferred, insertAfter := none }, inferred.isSome)

/-- Source: `_skip_reason`. -/
def skipReason (item : LLMSuggestionItem) (documentText : Text) (singleParagraph : Bool) :
    Option SkipReason :=
  if changeTypeMap item.changeType = none then some .unknownChangeType
  else
    let oldText := strip (item.oldText.getD [])
    if item.changeType = "add" then
      if oldText = [] then some .addWithoutAnchor
      else if oldText <:+: documentText then none
      else some .addAnchorNotInDocument
    else if oldText = [] then some .oldTextMissing
    else if singleParagraph = true ∧ '\n' ∈ oldText then some .oldTextSpansParagraphs
    else if oldText <:+: documentText then none
    else some .oldTextNotInDocument

/-- Source: `_with_inferred_note`. -/
def withInferredNote (rationale : Option Text) (sectionRef : Text) : Text :=
  let note := "Место вставки выбрано автоматически: после первого абзаца раздела «".toList ++
    sectionRef ++ "».".toList
  match rationale with
  | some text => if strip text = [] then note else text.rdropWhile isSpace ++ ' ' :: note
  | none => note

/-- An item before `_skip_reason`: normalised, with its anchor in `old_text`. -/
def prepare (documentText : Text) (raw : LLMSuggestionItem) : LLMSuggestionItem × Bool :=
  resolveAnchor (normalize raw) documentText

/-- The suggestion of one item, if it is kept: the body of the loop of `map_to_suggestions`. -/
def mapItem (analysisJobId documentId : Uuid) (documentText : Text)
    (documentFormat : DocumentFormat) (raw : LLMSuggestionItem) : Option Suggestion :=
  let prepared := prepare documentText raw
  let item := prepared.1
  match skipReason item documentText (singleParagraph documentFormat) with
  | some _ => none
  | none =>
      (changeTypeMap item.changeType).map fun changeType =>
        { analysisJobId, documentId
          sectionRef := item.sectionRef
          changeType
          originalText := item.oldText
          suggestedText := item.newText
          rationale := if prepared.2 = true then
              some (withInferredNote item.rationale item.sectionRef)
            else item.rationale
          confidenceScore := item.confidenceScore }

/-- Source: `map_to_suggestions`. -/
def mapToSuggestions (batch : List LLMSuggestionItem) (analysisJobId documentId : Uuid)
    (documentText : Text) (documentFormat : DocumentFormat) : List Suggestion :=
  batch.filterMap (mapItem analysisJobId documentId documentText documentFormat)

/-- A mapped suggestion is one of the job. -/
theorem mapItem_analysisJobId {jobId documentId : Uuid} {text : Text} {format : DocumentFormat}
    {raw : LLMSuggestionItem} {suggestion : Suggestion}
    (h : mapItem jobId documentId text format raw = some suggestion) :
    suggestion.analysisJobId = jobId := by
  simp only [mapItem] at h
  split at h
  · cases h
  · obtain ⟨changeType, -, rfl⟩ := Option.map_eq_some_iff.mp h
    rfl

/-- The suggestions of an answer belong to the job. -/
theorem analysisJobId_of_mem {batch : List LLMSuggestionItem} {jobId documentId : Uuid}
    {text : Text} {format : DocumentFormat} {suggestion : Suggestion}
    (h : suggestion ∈ mapToSuggestions batch jobId documentId text format) :
    suggestion.analysisJobId = jobId := by
  obtain ⟨raw, -, hitem⟩ := List.mem_filterMap.mp h
  exact mapItem_analysisJobId hitem

end SuggestionMapper

end SyncBack
