import SyncBack.Domain.StorageKeys

/-!
# The registry of parsers

Which parser reads a file, by the suffix of its name or of its key in the storage.

Source: `app/infrastructure/parsers/parser_registry.py`.
-/

namespace SyncBack

/-- The parsers that the registry holds. -/
inductive Parser where
  | docx
  | txt
  | markdown
  deriving DecidableEq, Repr

/-- Source: `UnsupportedFormatError`, also under the name `UnsupportedFileFormatError`. -/
structure UnsupportedFormatError where
  message : String
  deriving DecidableEq, Repr

namespace DocumentParserRegistry

/-- Source: `_BLOCKED_EXTENSIONS`. -/
def blockedExtensions : List Text := [".doc".toList]

/-- Source: `_EXTENSION_MAP`. -/
def extensionMap : List (Text × Parser) :=
  [(".docx".toList, .docx), (".md".toList, .markdown), (".markdown".toList, .markdown)]

/-- Source: `_get_parser_for_suffix`. -/
def getParserForSuffix (suffix : Text) : Option Parser := extensionMap.lookup suffix

/-- The parser that `parse_by_filename` runs. -/
def parserByFilename (lower : Text → Text) (filename : Text) :
    Except UnsupportedFormatError Parser :=
  let suffix := lower (pathSuffix filename)
  if suffix ∈ blockedExtensions then
    .error ⟨".doc (Word 97-2003) не поддерживается. " ++
      "Пожалуйста, конвертируйте файл в .docx перед загрузкой."⟩
  else
    .ok ((getParserForSuffix suffix).getD .txt)

end DocumentParserRegistry

end SyncBack
