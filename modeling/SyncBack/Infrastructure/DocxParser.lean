import SyncBack.Infrastructure.MarkdownParser

/-!
# The sections of a docx document

The parser goes through the paragraphs once, with the offset of the next one in the text that it
joins at the end; a second loop closes each section where the next one starts.

Source: `app/infrastructure/parsers/docx_parser.py`.
-/

namespace SyncBack

namespace DocxParser

/-- A paragraph with the name of its style, if it has a style. -/
structure StyledParagraph extends Paragraph where
  style : Option Text
  deriving DecidableEq

/-- `paragraph.style is not None and paragraph.style.name.startswith("Heading")`. -/
def isHeading (paragraph : StyledParagraph) : Bool :=
  paragraph.style.any fun name => "Heading".toList.isPrefixOf name

/-- The variables of the first loop. -/
structure Scan where
  sections : List DocumentSection := []
  textParts : List Text := []
  offset : ℕ := 0

/-- `paragraph_text.strip() or "Без названия"`. -/
def refOf (paragraphText : Text) : Text :=
  if strip paragraphText = [] then "Без названия".toList else strip paragraphText

section

variable (nfc : Text → Text)

/-- The body of the first loop. -/
def Scan.step (scan : Scan) (paragraph : StyledParagraph) : Scan :=
  let paragraphText := normalizeText nfc paragraph.text
  { sections :=
      if isHeading paragraph then
        scan.sections ++ [{ ref := refOf paragraphText, startOffset := scan.offset
                            endOffset := scan.offset }]
      else scan.sections
    textParts := scan.textParts ++ [paragraphText]
    offset := scan.offset + (paragraphText.length + 1) }

/-- The second loop. -/
def closeSections (length : ℕ) (sections : List DocumentSection) : List DocumentSection :=
  sections.mapIdx fun i opened =>
    { opened with
      endOffset := if h : i + 1 < sections.length then sections[i + 1].startOffset else length }

/-- Source: `DocxParser.parse`, after the loading of the file. -/
def parse (paragraphs : List StyledParagraph) : ParsedDocument :=
  let scan := paragraphs.foldl (Scan.step nfc) {}
  let plainText := ['\n'].intercalate scan.textParts
  { plainText, sections := closeSections plainText.length scan.sections }

end

end DocxParser

end SyncBack
