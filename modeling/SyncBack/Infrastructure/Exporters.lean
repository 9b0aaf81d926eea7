import SyncBack.Domain.TextNormalization

/-!
# Parsers and exporters

The parsers turn a file into the text that the model sees, the exporters apply the accepted
changes to the same file. A text file is its decoded content; a docx file is the list of its
paragraphs, each a list of runs and hyperlinks with their texts (tables and formatting are left
out).

Source: `app/infrastructure/parsers/*.py`, `app/infrastructure/exporters/*.py`.
-/

namespace SyncBack

/-- Source: `AppliedChange`; the reference to a section is not read by any exporter. -/
structure AppliedChange where
  changeType : ChangeType
  oldText : Option Text
  newText : Option Text
  deriving DecidableEq

/-- The fragment that a change is about, before normalisation. -/
def AppliedChange.old (change : AppliedChange) : Text := change.oldText.getD []

/-- What a change means to put in place of its fragment: nothing for a deletion. -/
def AppliedChange.replacement (change : AppliedChange) : Text :=
  if change.changeType = .delete then [] else change.newText.getD []

/-- The change that an accepted suggestion stands for.
Source: `DocumentExportService._iter_accepted_changes_pages`. -/
def Suggestion.toChange (suggestion : Suggestion) : AppliedChange where
  changeType := suggestion.changeType
  oldText := suggestion.originalText
  newText := if suggestion.editedText.getD [] = [] then suggestion.suggestedText
    else suggestion.editedText

section

variable (nfc : Text → Text)

/-! ## Text and Markdown -/

/-- The plain text of a decoded `txt` or `md` file.
Source: `TxtParser.parse`, `MarkdownParser.parse`. -/
def TextParser.plainText (content : Text) : Text := normalizeText nfc content

namespace TextExporter

/-- Source: `_insert_block`. -/
def insertBlock (text : Text) (position : ℕ) (block : Text) : Text :=
  let head := (text.take position).rdropWhile (· = '\n')
  let tail := (text.drop position).dropWhile (· = '\n')
  let joined := ['\n', '\n'].intercalate ((if head = [] then [] else [head]) ++ [block])
  joined ++ if tail = [] then ['\n'] else ['\n', '\n'] ++ tail

/-- Source: `_anchor_line_end`. -/
def anchorLineEnd (text anchor : Text) : Option ℕ :=
  match Strings.find text anchor with
  | none => none
  | some index =>
      let start := index + anchor.length
      match Strings.find (text.drop start) ['\n'] with
      | none => some text.length
      | some newline => some (start + newline)

/-- The new text of an addition without the line feeds around it. -/
def block (change : AppliedChange) : Text := Strings.strip (· = '\n') (change.newText.getD [])

/-- Source: `place_addition`. -/
def placeAddition (text : Text) (change : AppliedChange) : Text :=
  let anchor := strip (normalizeText nfc (change.oldText.getD []))
  if anchor = [] then text
  else
    match anchorLineEnd text anchor with
    | none => text
    | some position => insertBlock text position (block change)

/-- The body of the loop of `apply_changes`. -/
def applyChange (text : Text) (change : AppliedChange) : Text :=
  let oldText := normalizeText nfc (change.oldText.getD [])
  match change.changeType with
  | .modify =>
      if oldText = [] then text else Strings.replaceFirst text oldText (change.newText.getD [])
  | .delete => if oldText = [] then text else Strings.replaceFirst text oldText []
  | .add => if change.newText.getD [] = [] then text else placeAddition nfc text change

/-- Source: `TextExporter.apply_changes`, between the decoding and the encoding. -/
def applyChanges (content : Text) (changes : List AppliedChange) : Text :=
  changes.foldl (applyChange nfc) (normalizeText nfc content)

end TextExporter

/-! ## Docx -/

/-- A part of a paragraph: a run of its own, or a hyperlink, whose runs are its own. -/
inductive Inline where
  | run (text : Text)
  | hyperlink (text : Text)
  deriving DecidableEq

def Inline.text : Inline → Text
  | .run text => text
  | .hyperlink text => text

def Inline.isRun : Inline → Bool
  | .run _ => true
  | .hyperlink _ => false

/-- A paragraph, as its runs and hyperlinks in order. -/
structure Paragraph where
  inlines : List Inline
  deriving DecidableEq

/-- Source: `paragraph.text`. -/
def Paragraph.text (paragraph : Paragraph) : Text := (paragraph.inlines.map Inline.text).flatten

/-- Source: `paragraph.runs`, which are the runs outside of hyperlinks. -/
def Paragraph.runs (paragraph : Paragraph) : List Inline := paragraph.inlines.filter Inline.isRun

/-- Source: `DocxParser.parse`, the plain text. -/
def DocxParser.plainText (paragraphs : List Paragraph) : Text :=
  ['\n'].intercalate (paragraphs.map fun paragraph => normalizeText nfc paragraph.text)

namespace DocxExporter

/-- `run.text = ""` in the loop of `_set_paragraph_text`. -/
def clearRun : Inline → Inline
  | .run _ => .run []
  | .hyperlink text => .hyperlink text

/-- `paragraph.runs[0].text = new_text`. -/
def setFirstRun (newText : Text) : List Inline → List Inline
  | [] => []
  | .run _ :: rest => .run newText :: rest
  | .hyperlink text :: rest => .hyperlink text :: setFirstRun newText rest

/-- Source: `_set_paragraph_text`. -/
def setParagraphText (paragraph : Paragraph) (newText : Text) : Paragraph :=
  let cleared := paragraph.inlines.map clearRun
  if paragraph.runs ≠ [] then ⟨setFirstRun newText cleared⟩ else ⟨cleared ++ [.run newText]⟩

/-- The paragraph that `_insert_paragraph_after` adds. -/
def newParagraph (text : Text) : Paragraph := ⟨if text = [] then [] else [.run text]⟩

/-- Source: the loop of `_place_addition`, with `_insert_paragraph_after`. -/
def insertAfter (anchor newText : Text) : List Paragraph → List Paragraph
  | [] => []
  | paragraph :: rest =>
      if anchor <:+: normalizeText nfc paragraph.text then
        paragraph :: newParagraph newText :: rest
      else paragraph :: insertAfter anchor newText rest

/-- Source: `_place_addition`. -/
def placeAddition (paragraphs : List Paragraph) (change : AppliedChange) : List Paragraph :=
  let anchor := strip (normalizeText nfc (change.oldText.getD []))
  if anchor = [] then paragraphs
  else insertAfter nfc anchor (change.newText.getD []) paragraphs

/-- The first paragraph with the fragment is rewritten: the loop of the first branch of
`apply_changes`. -/
def rewriteFirst (oldText newText : Text) : List Paragraph → List Paragraph
  | [] => []
  | paragraph :: rest =>
      let paragraphText := normalizeText nfc paragraph.text
      if oldText <:+: paragraphText then
        setParagraphText paragraph (Strings.replaceFirst paragraphText oldText newText) :: rest
      else paragraph :: rewriteFirst oldText newText rest

/-- The body of the loop of `apply_changes`. -/
def applyChange (paragraphs : List Paragraph) (change : AppliedChange) : List Paragraph :=
  let oldText := normalizeText nfc (change.oldText.getD [])
  match change.changeType with
  | .modify | .delete =>
      if oldText = [] then paragraphs
      else rewriteFirst nfc oldText (change.newText.getD []) paragraphs
  | .add =>
      if change.newText.getD [] = [] then paragraphs else placeAddition nfc paragraphs change

/-- Source: `DocxExporter.apply_changes`, between loading and saving the document. -/
def applyChanges (paragraphs : List Paragraph) (changes : List AppliedChange) : List Paragraph :=
  changes.foldl (applyChange nfc) paragraphs

end DocxExporter

end

end SyncBack
