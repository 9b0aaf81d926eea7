import Mathlib.Algebra.Order.Floor.Ring
import Mathlib.Data.Rat.Floor
import SyncBack.Infrastructure.Prompt

/-!
# Log lines

`CorrelationJsonFormatter` writes a record as one line of JSON. Values under sensitive keys are
replaced, and the texts that stay are searched for secrets with five patterns.

The classes `\w` and the lower case of `str.lower` are tables of the Unicode standard and stand as
parameters, and so do the texts of floats and of objects that JSON has no form for.

Source: `app/core/logging_setup.py`.
-/

namespace SyncBack

open Strings

/-- The values without parts: `φ` are floats, `ω` other objects. -/
inductive PyScalar (φ ω : Type) where
  | none
  | bool (value : Bool)
  | int (value : ℤ)
  | float (value : φ)
  | object (value : ω)
  deriving DecidableEq

/-- A key of a dict: a string, or another hashable value. -/
inductive PyKey (φ ω : Type) where
  | str (text : Text)
  | scalar (value : PyScalar φ ω)
  deriving DecidableEq

/-- The values that can be logged. -/
inductive PyValue (φ ω : Type) where
  | dict (entries : List (PyKey φ ω × PyValue φ ω))
  | list (items : List (PyValue φ ω))
  | tuple (items : List (PyValue φ ω))
  | str (text : Text)
  | scalar (value : PyScalar φ ω)

namespace LoggingSetup

/-- Source: `_REDACTED`. -/
def redacted : Text := "***REDACTED***".toList

/-- Source: `_SENSITIVE_KEY_PARTS`. -/
def sensitiveKeyParts : List Text :=
  ["api_key", "apikey", "authorization", "cookie", "credentials", "database_url", "dsn",
    "password", "private_key", "secret", "token"].map String.toList

/-- Source: `_STANDARD_LOG_RECORD_KEYS`. -/
def standardLogRecordKeys : List Text :=
  ["name", "msg", "args", "levelname", "levelno", "pathname", "filename", "module", "exc_info",
    "exc_text", "stack_info", "lineno", "funcName", "created", "msecs", "relativeCreated",
    "thread", "threadName", "processName", "process", "taskName", "asctime",
    "message"].map String.toList

/-! ## The patterns -/

/-- A class of characters under `re.IGNORECASE`: also their capitals, and the letters outside ASCII
that fold to one of the class. -/
def ignoreCaseIn (p : Char → Bool) (c : Char) : Bool :=
  p c || p c.toLower || (c ∈ ['İ', 'ı'] && p 'i') || (c = 'ſ' && p 's') || (c = '\u212a' && p 'k')

/-- A word, under `re.IGNORECASE`. -/
def word (first : Char) (rest : String) : Regex Char :=
  .literal (ignoreCase first) (rest.toList.map ignoreCase)

/-- A word in which the two given parts may be joined by one of the given characters. -/
def joined (first second : Regex Char) (separator : Char → Bool) : Regex Char :=
  .seq first (.seq (.opt (.one separator)) second)

/-- `p+`. -/
def some' (p : Char → Bool) : Regex Char := .seq (.one p) (.many p)

/-- `\s*[:=]\s*`. -/
def assigned : Regex Char :=
  .seq (.many isSpace) (.seq (.one fun c => c = ':' || c = '=') (.many isSpace))

/-- `(?:bearer|basic)`. -/
def scheme : Regex Char := .alt (word 'b' "earer") (word 'b' "asic")

/-- `[^\s,;]`. -/
def isPlain (c : Char) : Bool := !(isSpace c || c = ',' || c = ';')

/-- `[_-]`. -/
def isJoin (c : Char) : Bool := c = '_' || c = '-'

/-- `[a-z0-9_.-]`. -/
def isNamePart : Char → Bool :=
  ignoreCaseIn fun c => c.isLower || c.isDigit || c = '_' || c = '.' || c = '-'

/-- Source: `_DSN_RE`, `\b([a-z][a-z0-9+.-]*://)([^/@\s]*)(?::([^@\s]*))?@`. -/
def dsnRe : Regex Char :=
  .seq .boundary <|
  .seq (.group 1 (.seq (.one (ignoreCaseIn Char.isLower)) (.seq
    (.many (ignoreCaseIn fun c => c.isLower || c.isDigit || c = '+' || c = '.' || c = '-'))
    (.literal (· = ':') [(· = '/'), (· = '/')])))) <|
  .seq (.group 2 (.many fun c => !(c = '/' || c = '@' || isSpace c))) <|
  .seq (.opt (.seq (.one (· = ':')) (.group 3 (.many fun c => !(c = '@' || isSpace c))))) <|
  .one (· = '@')

/-- Source: `_AUTH_RE`, `\b(authorization\s*[:=]\s*)(?:bearer|basic)\s+[^\s,;]+`. -/
def authRe : Regex Char :=
  .seq .boundary <|
  .seq (.group 1 (.seq (word 'a' "uthorization") assigned)) <|
  .seq scheme <|
  .seq (some' isSpace) (some' isPlain)

/-- Source: `_BEARER_RE`, `\b(bearer|basic)\s+[A-Za-z0-9._~+/=-]+`. -/
def bearerRe : Regex Char :=
  .seq .boundary <|
  .seq (.group 1 scheme) <|
  .seq (some' isSpace)
    (some' (ignoreCaseIn fun c => c.isAlphanum || c ∈ ['.', '_', '~', '+', '/', '=', '-']))

/-- Source: `_COOKIE_RE`, `\b((?:set-)?cookie\s*[:=]\s*)[^\r\n]+`. -/
def cookieRe : Regex Char :=
  .seq .boundary <|
  .seq (.group 1 (.seq (.opt (word 's' "et-")) (.seq (word 'c' "ookie") assigned))) <|
  some' fun c => !(c = '\r' || c = '\n')

/-- The names of `_SECRET_ASSIGNMENT_RE`. -/
def secretName : Regex Char :=
  .alt (word 'p' "assword") <|
  .alt (word 'p' "asswd") <|
  .alt (word 's' "ecret") <|
  .alt (joined (word 'a' "pi") (word 'k' "ey") isJoin) <|
  .alt (word 't' "oken") <|
  .alt (word 'a' "uthorization") <|
  .alt (.seq (.opt (.seq (word 's' "et") (.opt (.one isJoin)))) (word 'c' "ookie")) <|
  .alt (word 'd' "sn") <|
  .alt (joined (word 'd' "atabase") (word 'u' "rl") isJoin) <|
  .alt (.seq (word 'c' "redential") (.opt (.one (ignoreCase 's')))) <|
  joined (word 'p' "rivate") (word 'k' "ey") isJoin

/-- Source: `_SECRET_ASSIGNMENT_RE`; `\x22` is the double and `\x27` the single quote. -/
def secretAssignmentRe : Regex Char :=
  .seq (.group 1 (.seq .boundary (.seq (.many isNamePart) (.seq secretName
    (.seq (.many isNamePart) (.seq .boundary assigned)))))) <|
  .alt (.seq (.one (· = '\x22')) (.seq (.many (· ≠ '\x22')) (.one (· = '\x22')))) <|
  .alt (.seq (.one (· = '\x27')) (.seq (.many (· ≠ '\x27')) (.one (· = '\x27')))) <|
  some' isPlain

section

variable (isWord : Char → Bool) (lower : Text → Text)

/-! ## Redaction -/

/-- Source: `_is_sensitive_key`. -/
def isSensitiveKey (key : Text) : Bool :=
  let normalized := Strings.strip (· = '_') <|
    (some' fun c => !(c.isLower || c.isDigit)).sub isWord (fun _ => ['_']) (lower key)
  let compact := normalized.filter (· ≠ '_')
  sensitiveKeyParts.any fun part =>
    decide (part <:+: normalized) || decide (part.filter (· ≠ '_') <:+: compact)

/-- Source: `_redact_text`. -/
def redactText (value : Text) : Text :=
  let value := dsnRe.sub isWord (fun m => m.group 1 ++ "***:***@".toList) value
  let value := authRe.sub isWord (fun m => m.group 1 ++ redacted) value
  let value := bearerRe.sub isWord (fun m => m.group 1 ++ ' ' :: redacted) value
  let value := cookieRe.sub isWord (fun m => m.group 1 ++ redacted) value
  secretAssignmentRe.sub isWord (fun m => m.group 1 ++ redacted) value

variable {φ ω : Type}

/-- `isinstance(key, str) and _is_sensitive_key(key)`. -/
def hidesKey : PyKey φ ω → Bool
  | .str key => isSensitiveKey isWord lower key
  | .scalar _ => false

mutual

/-- Source: `_redact`. -/
def redact : PyValue φ ω → PyValue φ ω
  | .dict entries => .dict (redactEntries entries)
  | .list items => .list (redactItems items)
  | .tuple items => .list (redactItems items)
  | .str text => .str (redactText isWord text)
  | .scalar value => .scalar value

def redactEntries : List (PyKey φ ω × PyValue φ ω) → List (PyKey φ ω × PyValue φ ω)
  | [] => []
  | (key, value) :: entries =>
      (key, if hidesKey isWord lower key then .str redacted else redact value) ::
        redactEntries entries

def redactItems : List (PyValue φ ω) → List (PyValue φ ω)
  | [] => []
  | item :: items => redact item :: redactItems items

end

end

/-! ## JSON -/

/-- A character in a JSON string, with `ensure_ascii=False`. -/
def jsonChar (c : Char) : Text :=
  if c = '\x22' then ['\\', '\x22']
  else if c = '\\' then ['\\', '\\']
  else if c = '\n' then ['\\', 'n']
  else if c = '\r' then ['\\', 'r']
  else if c = '\t' then ['\\', 't']
  else if c = '\x0c' then ['\\', 'f']
  else if c = '\x08' then ['\\', 'b']
  else if c.toNat < 32 then
    ['\\', 'u', '0', '0', Nat.digitChar (c.toNat / 16), Nat.digitChar (c.toNat % 16)]
  else [c]

def jsonString (text : Text) : Text := '\x22' :: text.flatMap jsonChar ++ ['\x22']

/-- The parts of a list or of a dict between their brackets. -/
def jsonParts (first last : String) (parts : List Text) : Text :=
  first.toList ++ List.intercalate ", ".toList parts ++ last.toList

section

variable {φ ω : Type} (floatRepr : φ → Text) (objectStr : ω → Text)

/-- The text of a scalar; `none` for an object, which JSON has no form for. -/
def jsonScalar : PyScalar φ ω → Option Text
  | .none => some "null".toList
  | .bool value => some (if value then "true" else "false").toList
  | .int value => some (toString value).toList
  | .float value => some (floatRepr value)
  | .object _ => none

/-- A key of a dict as a string; `none` is the `TypeError` for other keys. -/
def jsonKey : PyKey φ ω → Option Text
  | .str text => some text
  | .scalar value => jsonScalar floatRepr value

mutual

/-- `json.dumps(value, ensure_ascii=False, default=str)`; `none` is a `TypeError`. -/
def dumps : PyValue φ ω → Option Text
  | .dict entries => (dumpsEntries entries).map (jsonParts "\x7b" "\x7d")
  | .list items => (dumpsItems items).map (jsonParts "[" "]")
  | .tuple items => (dumpsItems items).map (jsonParts "[" "]")
  | .str text => some (jsonString text)
  | .scalar (.object value) => some (jsonString (objectStr value))
  | .scalar value => jsonScalar floatRepr value

def dumpsEntries : List (PyKey φ ω × PyValue φ ω) → Option (List Text)
  | [] => some []
  | (key, value) :: entries => do
      let key ← jsonKey floatRepr key
      let value ← dumps value
      let entries ← dumpsEntries entries
      some ((jsonString key ++ ": ".toList ++ value) :: entries)

def dumpsItems : List (PyValue φ ω) → Option (List Text)
  | [] => some []
  | item :: items => do
      let item ← dumps item
      let items ← dumpsItems items
      some (item :: items)

end

end

/-! ## The formatter -/

/-- The year, month and day of a number of days since 1970. -/
def civilFromDays (days : ℤ) : ℤ × ℤ × ℤ :=
  let z := days + 719468
  let era := z / 146097
  let doe := z % 146097
  let yoe := (doe - doe / 1460 + doe / 36524 - doe / 146096) / 365
  let doy := doe - (365 * yoe + yoe / 4 - yoe / 100)
  let mp := (5 * doy + 2) / 153
  let month := if mp < 10 then mp + 3 else mp - 9
  let year := yoe + era * 400
  (if month ≤ 2 then year + 1 else year, month, doy - (153 * mp + 2) / 5 + 1)

example : civilFromDays 20513 = (2026, 3, 1) := by decide

/-- A number of two digits. -/
def twoDigits (n : ℤ) : String := if n < 10 then s!"0{n}" else s!"{n}"

/-- `time.strftime("%Y-%m-%dT%H:%M:%S", time.gmtime(created))`. -/
def timestamp (created : ℚ) : Text :=
  let seconds := ⌊created⌋
  let (year, month, day) := civilFromDays (seconds / 86400)
  let second := seconds % 86400
  let date := s!"{year}-{twoDigits month}-{twoDigits day}"
  let time :=
    s!"{twoDigits (second / 3600)}:{twoDigits (second / 60 % 60)}:{twoDigits (second % 60)}"
  (date ++ "T" ++ time).toList

/-- What the formatter reads of a record. -/
structure LogRecord (φ ω : Type) where
  created : ℚ
  levelname : Text
  name : Text
  /-- What `getMessage` gives. -/
  message : Text
  /-- What `formatException` makes of `exc_info`, if there is one. -/
  exception : Option Text
  /-- `__dict__`: the attributes of the record, the ones from `extra` among them. -/
  dict : List (Text × PyValue φ ω)

section

variable {φ ω : Type}

/-- `payload[key] = value`. -/
def setItem (payload : List (Text × PyValue φ ω)) (key : Text) (value : PyValue φ ω) :
    List (Text × PyValue φ ω) :=
  if key ∈ payload.map Prod.fst then
    payload.map fun entry => if entry.1 = key then (key, value) else entry
  else payload ++ [(key, value)]

variable (isWord : Char → Bool) (lower : Text → Text)

/-- The body of the loop over the attributes. -/
def addAttribute (payload : List (Text × PyValue φ ω)) (item : Text × PyValue φ ω) :
    List (Text × PyValue φ ω) :=
  let (key, value) := item
  if key.head? = some '_' ∨ key ∈ standardLogRecordKeys ∨ key ∈ payload.map Prod.fst then payload
  else
    setItem payload key
      (if isSensitiveKey isWord lower key then .str redacted else redact isWord lower value)

/-- The payload before the loop. -/
def basePayload (requestId taskId : Option Text) (record : LogRecord φ ω) :
    List (Text × PyValue φ ω) :=
  [("timestamp".toList, .str (timestamp record.created)),
    ("level".toList, .str record.levelname),
    ("logger".toList, .str record.name),
    ("message".toList, .str (redactText isWord record.message))] ++
  ((requestId.filter (· ≠ [])).map fun id => ("request_id".toList, .str id)).toList ++
  ((taskId.filter (· ≠ [])).map fun id => ("task_id".toList, .str id)).toList

/-- The payload of a record. -/
def payloadOf (requestId taskId : Option Text) (record : LogRecord φ ω) :
    List (Text × PyValue φ ω) :=
  let payload := record.dict.foldl (addAttribute isWord lower)
    (basePayload isWord requestId taskId record)
  match record.exception with
  | some exception =>
      setItem payload "exception".toList (.str (redactText isWord exception))
  | none => payload

/-- Source: `CorrelationJsonFormatter.format`, with the values of the two context variables. -/
def format (floatRepr : φ → Text) (objectStr : ω → Text) (requestId taskId : Option Text)
    (record : LogRecord φ ω) : Option Text :=
  dumps floatRepr objectStr <| .dict <|
    (payloadOf isWord lower requestId taskId record).map fun entry => (.str entry.1, entry.2)

end

end LoggingSetup

end SyncBack
