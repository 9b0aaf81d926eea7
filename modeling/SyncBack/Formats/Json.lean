import Mathlib.Algebra.Group.Nat.Defs
import Mathlib.Data.Int.Notation
import Mathlib.Data.List.TakeWhile
import SyncBack.Strings.Percent

/-!
# JSON as Python writes and reads it

`dumps` with the default separators and ASCII output, and `loads`. A string is a sequence of code
points: an escape can put a surrogate into it that no text in UTF-8 holds. A float is known by its
literal alone (`FloatText`).

`loads` descends with a counter, which never runs out (`Formats.JsonReading`).
-/

namespace Json

/-! ## Strings -/

/-- A character of a string, surrogates among them. -/
abbrev CodePoint := Fin 0x110000

abbrev Str := List CodePoint

/-- A character is a code point. -/
theorem toNat_lt (c : Char) : c.toNat < 0x110000 := by
  have hvalid := c.valid
  change c.val.toNat < 0x110000
  rcases hvalid with h | h
  · omega
  · exact h.2

def CodePoint.ofChar (c : Char) : CodePoint := ⟨c.toNat, toNat_lt c⟩

/-- The string that a text is. -/
def Str.ofText (text : List Char) : Str := text.map CodePoint.ofChar

def CodePoint.IsHigh (c : CodePoint) : Prop := 0xD800 ≤ c.val ∧ c.val < 0xDC00

def CodePoint.IsLow (c : CodePoint) : Prop := 0xDC00 ≤ c.val ∧ c.val < 0xE000

instance (c : CodePoint) : Decidable c.IsHigh := inferInstanceAs (Decidable (_ ∧ _))

instance (c : CodePoint) : Decidable c.IsLow := inferInstanceAs (Decidable (_ ∧ _))

/-- The text that a string is, unless a surrogate stands in it. -/
def Str.text? (s : Str) : Option (List Char) :=
  s.mapM fun c => if c.IsHigh ∨ c.IsLow then none else some (Char.ofNat c.val)

/-- The code point that two surrogates stand for. -/
def joined (high low : CodePoint) : CodePoint :=
  Fin.ofNat 0x110000 (0x10000 + (high.val - 0xD800) * 0x400 + (low.val - 0xDC00))

/-- A code point in 16-bit units. -/
def units (c : CodePoint) : List CodePoint :=
  if c.val < 0x10000 then [c]
  else
    [Fin.ofNat 0x110000 (0xD800 + (c.val - 0x10000) / 0x400),
      Fin.ofNat 0x110000 (0xDC00 + (c.val - 0x10000) % 0x400)]

/-- Surrogates that form a pair are joined. -/
def joinPairs : List CodePoint → Str
  | [] => []
  | [c] => [c]
  | high :: low :: rest =>
      if high.IsHigh ∧ low.IsLow then joined high low :: joinPairs rest
      else high :: joinPairs (low :: rest)

/-- No two surrogates of the string form a pair. -/
def Unpaired (s : Str) : Prop := s.IsChain fun a b => ¬ (a.IsHigh ∧ b.IsLow)

/-! ### Escapes -/

def hex4 (n : ℕ) : List Char :=
  [(n / 4096 % 16).digitChar, (n / 256 % 16).digitChar, (n / 16 % 16).digitChar, (n % 16).digitChar]

/-- A unit inside a literal. -/
def escape (unit : CodePoint) : List Char :=
  if unit.val = 0x22 then ['\\', '"']
  else if unit.val = 0x5C then ['\\', '\\']
  else if unit.val = 0x0A then ['\\', 'n']
  else if unit.val = 0x0D then ['\\', 'r']
  else if unit.val = 0x09 then ['\\', 't']
  else if unit.val = 0x0C then ['\\', 'f']
  else if unit.val = 0x08 then ['\\', 'b']
  else if 0x20 ≤ unit.val ∧ unit.val ≤ 0x7E then [Char.ofNat unit.val]
  else '\\' :: 'u' :: hex4 unit.val

/-- A string as a literal, without its first quotation mark. -/
def closing (s : Str) : List Char := (s.flatMap units).flatMap escape ++ ['"']

def hex4Value (a b c d : Char) : Option CodePoint := do
  let a ← Percent.hexValue a
  let b ← Percent.hexValue b
  let c ← Percent.hexValue c
  let d ← Percent.hexValue d
  pure (Fin.ofNat 0x110000 (4096 * a + 256 * b + 16 * c + d))

/-- The character that follows a backslash, unless it is `u`. -/
def shortEscape : Char → Option CodePoint
  | '"' => some 0x22
  | '\\' => some 0x5C
  | '/' => some 0x2F
  | 'b' => some 0x08
  | 'f' => some 0x0C
  | 'n' => some 0x0A
  | 'r' => some 0x0D
  | 't' => some 0x09
  | _ => none

/-- The units of a literal whose first quotation mark has been read, and the text after it. -/
def scanUnits : List Char → Option (List CodePoint × List Char)
  | [] => none
  | '"' :: rest => some ([], rest)
  | '\\' :: 'u' :: a :: b :: c :: d :: rest => do
      let unit ← hex4Value a b c d
      let scanned ← scanUnits rest
      pure (unit :: scanned.1, scanned.2)
  | '\\' :: c :: rest => do
      let unit ← shortEscape c
      let scanned ← scanUnits rest
      pure (unit :: scanned.1, scanned.2)
  | c :: rest =>
      -- control characters are refused, and so is a backslash at the end
      if c.toNat < 0x20 ∨ c = '\\' then none
      else do
        let scanned ← scanUnits rest
        pure (.ofChar c :: scanned.1, scanned.2)

def scanString (text : List Char) : Option (Str × List Char) :=
  (scanUnits text).map fun scanned => (joinPairs scanned.1, scanned.2)

/-! ## Numbers -/

/-- A run of digits that is not empty. -/
abbrev Digits := { chars : List Char // chars ≠ [] ∧ ∀ c ∈ chars, c.isDigit = true }

structure Exponent where
  upper : Bool
  sign : Option Bool
  digits : Digits
  deriving DecidableEq

/-- What the pattern of a number matches. -/
structure Number where
  negative : Bool
  whole : ℕ
  fraction : Option Digits
  exponent : Option Exponent
  deriving DecidableEq

def Exponent.text (e : Exponent) : List Char :=
  (if e.upper then 'E' else 'e') ::
    (e.sign.elim [] (fun negative => [if negative then '-' else '+']) ++ e.digits.val)

def Number.text (n : Number) : List Char :=
  (if n.negative then ['-'] else []) ++ Nat.toDigits 10 n.whole ++
    n.fraction.elim [] (fun digits => '.' :: digits.val) ++ n.exponent.elim [] Exponent.text

/-- The literal of a float: with a fraction or an exponent. -/
def Number.IsFloat (n : Number) : Prop := ¬ (n.fraction = none ∧ n.exponent = none)

instance (n : Number) : Decidable n.IsFloat := inferInstanceAs (Decidable (¬ _))

def takeDigits (text : List Char) : Option (Digits × List Char) :=
  if h : text.takeWhile Char.isDigit = [] then none
  else
    some (⟨text.takeWhile Char.isDigit, h, fun _ hc => List.mem_takeWhile_imp hc⟩,
      text.dropWhile Char.isDigit)

/-- `0|[1-9][0-9]*` -/
def takeWhole : List Char → Option (ℕ × List Char)
  | '0' :: rest => some (0, rest)
  | text => (takeDigits text).map fun taken => (Nat.ofDigitChars 10 taken.1.val 0, taken.2)

/-- `(\.[0-9]+)?` -/
def takeFraction : List Char → Option Digits × List Char
  | '.' :: rest =>
      match takeDigits rest with
      | some (digits, rest') => (some digits, rest')
      | none => (none, '.' :: rest)
  | text => (none, text)

/-- `[-+]?` -/
def takeSign : List Char → Option Bool × List Char
  | '-' :: rest => (some true, rest)
  | '+' :: rest => (some false, rest)
  | text => (none, text)

/-- `([eE][-+]?[0-9]+)?` -/
def takeExponent : List Char → Option Exponent × List Char
  | [] => (none, [])
  | c :: rest =>
      if c = 'e' ∨ c = 'E' then
        match takeDigits (takeSign rest).2 with
        | some (digits, rest') => (some ⟨c = 'E', (takeSign rest).1, digits⟩, rest')
        | none => (none, c :: rest)
      else (none, c :: rest)

/-- `-?` -/
def takeMinus : List Char → Bool × List Char
  | '-' :: rest => (true, rest)
  | text => (false, text)

def takeNumber (text : List Char) : Option (Number × List Char) := do
  let whole ← takeWhole (takeMinus text).2
  let fraction := takeFraction whole.2
  let exponent := takeExponent fraction.2
  pure (⟨(takeMinus text).1, whole.1, fraction.1, exponent.1⟩, exponent.2)

/-! ## Values -/

/-- The longest integer that the interpreter converts to and from decimal text. -/
def maxStrDigits : ℕ := 4300

/-- An integer that can be written. -/
abbrev PyInt := { n : ℤ // n.natAbs < 10 ^ maxStrDigits }

inductive FloatLiteral where
  | nan
  | infinity (negative : Bool)
  | number (n : Number) (h : n.IsFloat)

/-- Floats: `float.__repr__`, `float` and what counts as false. -/
class FloatText (φ : Type) where
  repr : φ → FloatLiteral
  ofLiteral : FloatLiteral → φ
  isZero : φ → Bool
  ofLiteral_repr : ∀ x, ofLiteral (repr x) = x

/-- `0` in all places that count. -/
def FloatLiteral.isZero : FloatLiteral → Bool
  | .number n _ =>
      n.whole = 0 && ((n.fraction.map Subtype.val).getD []).all (· = '0')
  | _ => false

/-- Floats that are their literals. -/
instance : FloatText FloatLiteral where
  repr := id
  ofLiteral := id
  isZero := FloatLiteral.isZero
  ofLiteral_repr _ := rfl

/-- A value; a dict keeps the order of its keys. -/
inductive Value (φ : Type) where
  | null
  | bool (b : Bool)
  | int (n : PyInt)
  | float (x : φ)
  | str (s : Str)
  | list (items : List (Value φ))
  | dict (members : List (Str × Value φ))

/-- Induction over values, with the hypothesis for each item and each member. -/
@[elab_as_elim]
theorem Value.induct {φ : Type} {P : Value φ → Prop} (null : P .null) (bool : ∀ b, P (.bool b))
    (int : ∀ n, P (.int n)) (float : ∀ x, P (.float x)) (str : ∀ s, P (.str s))
    (list : ∀ items, (∀ item ∈ items, P item) → P (.list items))
    (dict : ∀ members, (∀ member ∈ members, P member.2) → P (.dict members)) (v : Value φ) : P v :=
  @Value.rec φ P (fun items => ∀ item ∈ items, P item) (fun members => ∀ member ∈ members, P member.2)
    (fun member => P member.2) null bool int float str list dict (by simp) (by simp +contextual)
    (by simp) (by simp +contextual) (fun _ _ h => h) v

variable {φ : Type}

def FloatLiteral.text : FloatLiteral → List Char
  | .nan => "NaN".toList
  | .infinity negative => (if negative then ['-'] else []) ++ "Infinity".toList
  | .number n _ => n.text

/-- `int.__repr__` -/
def PyInt.text (n : PyInt) : List Char :=
  (if n.val < 0 then ['-'] else []) ++ Nat.toDigits 10 n.val.natAbs

/-- `d[key] = value` -/
def setItem (members : List (Str × Value φ)) (key : Str) (value : Value φ) :
    List (Str × Value φ) :=
  if members.any (·.1 = key) then
    members.map fun member => if member.1 = key then (key, value) else member
  else members ++ [(key, value)]

/-- The dict of the pairs of a literal: a repeated key keeps its place and the last value. -/
def dictOf (pairs : List (Str × Value φ)) : List (Str × Value φ) :=
  pairs.foldl (fun members pair => setItem members pair.1 pair.2) []

def isSpace (c : Char) : Bool := c = ' ' ∨ c = '\t' ∨ c = '\n' ∨ c = '\r'

def skipSpace (text : List Char) : List Char := text.dropWhile isSpace

/-- The text after a closing bracket, if one comes first. -/
def closes (bracket : Char) (text : List Char) : Option (List Char) :=
  match skipSpace text with
  | [] => none
  | c :: rest => if c = bracket then some rest else none

/-- What follows an item: the closing bracket, or a comma and the next item. -/
inductive Next where
  | closed (rest : List Char)
  | more (rest : List Char)

def after (bracket : Char) (text : List Char) : Option Next :=
  match skipSpace text with
  | [] => none
  | c :: rest =>
      if c = bracket then some (.closed rest)
      else if c = ',' then some (.more (skipSpace rest))
      else none

/-- The text after the colon between a key and its value. -/
def colon (text : List Char) : Option (List Char) := (closes ':' text).map skipSpace

/-- A key. -/
def quoted : List Char → Option (Str × List Char)
  | '"' :: rest => scanString rest
  | _ => none

variable [FloatText φ]

mutual

/-- `json.dumps` -/
def dumps : Value φ → List Char
  | .null => "null".toList
  | .bool true => "true".toList
  | .bool false => "false".toList
  | .int n => PyInt.text n
  | .float x => (FloatText.repr x).text
  | .str s => '"' :: closing s
  | .list items => '[' :: dumpsItems items
  | .dict members => '{' :: dumpsMembers members

/-- The items of a list with its closing bracket. -/
def dumpsItems : List (Value φ) → List Char
  | [] => [']']
  | [item] => dumps item ++ [']']
  | item :: next :: rest => dumps item ++ ", ".toList ++ dumpsItems (next :: rest)

/-- The members of a dict with its closing bracket. -/
def dumpsMembers : List (Str × Value φ) → List Char
  | [] => ['}']
  | [(key, value)] => '"' :: closing key ++ ": ".toList ++ dumps value ++ ['}']
  | (key, value) :: next :: rest =>
      '"' :: closing key ++ ": ".toList ++ dumps value ++ ", ".toList ++ dumpsMembers (next :: rest)

end

/-! ### Reading -/

/-- The integer before the fraction. -/
def Number.signed (n : Number) : ℤ := if n.negative then -(n.whole : ℤ) else n.whole

/-- The value of a number: an `int` without fraction and exponent, or a `ValueError`. -/
def Number.value? (n : Number) : Option (Value φ) :=
  if h : n.IsFloat then some (.float (FloatText.ofLiteral (.number n h)))
  else if h : n.signed.natAbs < 10 ^ maxStrDigits then some (.int ⟨n.signed, h⟩)
  else none

/-- A value that begins with neither a quotation mark nor a bracket. -/
def scalar (text : List Char) : Option (Value φ × List Char) :=
  match text with
  | 'n' :: 'u' :: 'l' :: 'l' :: rest => some (.null, rest)
  | 't' :: 'r' :: 'u' :: 'e' :: rest => some (.bool true, rest)
  | 'f' :: 'a' :: 'l' :: 's' :: 'e' :: rest => some (.bool false, rest)
  | 'N' :: 'a' :: 'N' :: rest => some (.float (FloatText.ofLiteral .nan), rest)
  | 'I' :: 'n' :: 'f' :: 'i' :: 'n' :: 'i' :: 't' :: 'y' :: rest =>
      some (.float (FloatText.ofLiteral (.infinity false)), rest)
  | '-' :: 'I' :: 'n' :: 'f' :: 'i' :: 'n' :: 'i' :: 't' :: 'y' :: rest =>
      some (.float (FloatText.ofLiteral (.infinity true)), rest)
  | text => (takeNumber text).bind fun taken => taken.1.value?.map fun v => (v, taken.2)

mutual

/-- A value at the start of a text, and what follows it. -/
def value : ℕ → List Char → Option (Value φ × List Char)
  | 0, _ => none
  | fuel + 1, text =>
      match text with
      | '"' :: rest => (scanString rest).map fun scanned => (.str scanned.1, scanned.2)
      | '[' :: rest =>
          match closes ']' rest with
          | some rest' => some (.list [], rest')
          | none => (items fuel (skipSpace rest)).map fun parsed => (.list parsed.1, parsed.2)
      | '{' :: rest =>
          match closes '}' rest with
          | some rest' => some (.dict [], rest')
          | none =>
              (members fuel (skipSpace rest)).map fun parsed => (.dict (dictOf parsed.1), parsed.2)
      | text => scalar text

/-- The items of a list up to its closing bracket. -/
def items : ℕ → List Char → Option (List (Value φ) × List Char)
  | 0, _ => none
  | fuel + 1, text => do
      let item ← value fuel text
      match ← after ']' item.2 with
      | .closed rest => pure ([item.1], rest)
      | .more rest =>
          let parsed ← items fuel rest
          pure (item.1 :: parsed.1, parsed.2)

/-- The members of a dict up to its closing bracket. -/
def members : ℕ → List Char → Option (List (Str × Value φ) × List Char)
  | 0, _ => none
  | fuel + 1, text => do
      let key ← quoted text
      let item ← value fuel (← colon key.2)
      match ← after '}' item.2 with
      | .closed rest => pure ([(key.1, item.1)], rest)
      | .more rest =>
          let parsed ← members fuel rest
          pure ((key.1, item.1) :: parsed.1, parsed.2)

end

/-- `json.loads`; `none` is a `ValueError`. -/
def loads (text : List Char) : Option (Value φ) :=
  match value (2 * text.length) (skipSpace text) with
  | some (v, rest) => if skipSpace rest = [] then some v else none
  | none => none

end Json
