import SyncBack.Domain.TextNormalization
import SyncBack.Strings.Percent

/-!
# The header Content-Disposition

The name of a file comes twice: an ASCII variant in quotes, and the whole name percent-encoded.
`unicodedata.normalize("NFKD", …)` is a table of the Unicode standard and stands as the parameter
`nfkd`.

Source: `app/core/content_disposition.py`.
-/

namespace SyncBack

namespace ContentDisposition

/-- `.encode("ascii", "ignore").decode()`. -/
def asciiOnly (text : Text) : Text := text.filter fun c => c.toNat < 128

/-- The characters that `_UNSAFE_ASCII_RE` does not match. -/
def isSafeAscii (c : Char) : Bool :=
  c.isAlphanum || c = '.' || c = '_' || c = ' ' || c = '-'

/-- `_UNSAFE_ASCII_RE.sub("_", …)`. -/
def maskUnsafe (text : Text) : Text := text.map fun c => if isSafeAscii c then c else '_'

/-- The ASCII variant of a name. -/
def asciiName (nfkd : Text → Text) (filename : Text) : Text :=
  let name := strip (maskUnsafe (asciiOnly (nfkd filename)))
  if name = [] then "download".toList else name

/-- The bytes that `urllib.parse.quote` leaves alone. -/
def alwaysSafe (b : UInt8) : Bool :=
  (0x41 ≤ b && b ≤ 0x5a) || (0x61 ≤ b && b ≤ 0x7a) || (0x30 ≤ b && b ≤ 0x39) ||
    b = 0x5f || b = 0x2e || b = 0x2d || b = 0x7e

/-- `quote(filename, safe="")`. -/
def quote (filename : Text) : Text := Percent.encodeText alwaysSafe filename

/-- The type of the disposition. -/
def disposition (inline : Bool) : Text := (if inline then "inline" else "attachment").toList

/-- Source: `content_disposition`. -/
def contentDisposition (nfkd : Text → Text) (filename : Text) (inline : Bool) : Text :=
  disposition inline ++ "; filename=\"".toList ++ asciiName nfkd filename ++
    "\"; filename*=UTF-8''".toList ++ quote filename

end ContentDisposition

end SyncBack
