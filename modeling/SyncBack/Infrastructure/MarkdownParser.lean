import SyncBack.Infrastructure.Exporters
import SyncBack.Strings.Pattern

/-!
# The sections of a Markdown document

The parser finds the headings with one regular expression in multi-line mode; a section goes from
its heading to the next one. Beside it stands what a heading line is, taken line by line
(`headingOf`): one to six `#`, a whitespace character and a text on that line.

Source: `app/infrastructure/parsers/markdown_parser.py`, `app/domain/interfaces/document_parser.py`.
-/

namespace SyncBack

/-- Source: `DocumentSection`. -/
structure DocumentSection where
  ref : Text
  startOffset : ℕ
  endOffset : ℕ
  deriving DecidableEq, Repr

/-- Source: `ParsedDocument`. -/
structure ParsedDocument where
  plainText : Text
  sections : List DocumentSection := []
  deriving DecidableEq, Repr

namespace MarkdownParser

open Strings (Regex Match)

/-- `^` in multi-line mode. -/
def lineStart (prev _next : Option Char) : Bool := prev.all (· = '\n')

/-- `$` in multi-line mode. -/
def lineEnd (_prev next : Option Char) : Bool := next.all (· = '\n')

/-- `.`, which takes any character except a line feed. -/
def notNewline (c : Char) : Bool := c ≠ '\n'

/-- Source: `_HEADING_RE`, that is `^(#{1,6})\s+(.+)$`. -/
def headingRe : Regex Char :=
  .seq (.assert lineStart) <| .seq (.group 1 (.oneUpTo (· = '#') 5)) <|
    .seq (.one isSpace) <| .seq (.many isSpace) <|
      .seq (.group 2 (.seq (.one notNewline) (.many notNewline))) (.assert lineEnd)

/-- The loop of `parse` over the matches: a section ends where the next one starts. -/
def sectionsOf (length : ℕ) : List (ℕ × Match Char) → List DocumentSection
  | [] => []
  | (start, m) :: rest =>
      { ref := strip (m.group 2)
        startOffset := start
        endOffset := (rest.head?.map Prod.fst).getD length } :: sectionsOf length rest

/-- Source: `MarkdownParser.parse`, after the decoding; the expression has no `\b`. -/
def parse (nfc : Text → Text) (content : Text) : ParsedDocument :=
  let text := normalizeText nfc content
  { plainText := text
    sections := sectionsOf text.length (Regex.finditer (fun _ => false) headingRe text) }

end MarkdownParser

/-! ## Heading lines -/

/-- What stands on a line after its first `#`s. -/
def afterMarks (line : Text) : Text := line.dropWhile (· = '#')

/-- The line starts with one to six `#`, not more. -/
def HasMarks (line : Text) : Prop :=
  1 ≤ (line.takeWhile (· = '#')).length ∧ (line.takeWhile (· = '#')).length ≤ 6

instance : DecidablePred HasMarks := fun _ => inferInstanceAs (Decidable (_ ∧ _))

/-- The line holds marks and whitespace alone. -/
def IsBare (line : Text) : Prop := HasMarks line ∧ ∀ c ∈ afterMarks line, isSpace c = true

/-- The text of a heading line. -/
def headingOf (line : Text) : Option Text :=
  if HasMarks line ∧ (afterMarks line).head?.any isSpace = true ∧ strip (afterMarks line) ≠ [] then
    some (strip (afterMarks line))
  else none

/-- The heading lines with their positions, for lines that start at the position `i`. -/
def headingsFrom : ℕ → List Text → List (ℕ × Text)
  | _, [] => []
  | i, line :: rest =>
      ((headingOf line).map fun ref => (i, ref)).toList ++ headingsFrom (i + line.length + 1) rest

/-- The heading lines of a text with their positions. -/
def headings (text : Text) : List (ℕ × Text) := headingsFrom 0 (text.splitOn '\n')

end SyncBack
