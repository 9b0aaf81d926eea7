import Mathlib.Data.Int.Notation
import SyncBack.Net.IpAddress
import SyncBack.Strings.Percent
import SyncBack.Strings.Search

/-!
# UUIDs as text

`str` writes the 128 bits of a UUID as hexadecimal digits in five groups, and `parse` reads the forms
that `uuid.UUID` takes: with or without the groups, in braces, as a URN. Underneath is `int(…, 16)`
with its signs, prefixes and underscores. What is written reads back (`parse_str`).
-/

namespace UuidText

/-- The bits of a UUID. -/
abbrev UUID := BitVec 128

/-- `'%032x'` -/
def hex (u : UUID) : List Char := (Nat.toDigits 16 u.toNat).leftpad 32 '0'

/-- `UUID.__str__` -/
def str (u : UUID) : List Char :=
  (hex u).take 8 ++ '-' :: (((hex u).drop 8).take 4 ++ '-' :: (((hex u).drop 12).take 4 ++
    '-' :: (((hex u).drop 16).take 4 ++ '-' :: (hex u).drop 20)))

/-! ## Reading -/

/-- `text.replace(sub, '')` for a `sub` that is not empty, after `n` characters of an occurrence. -/
def removeFrom (sub : List Char) : ℕ → List Char → List Char
  | _, [] => []
  | n + 1, _ :: rest => removeFrom sub n rest
  | 0, c :: rest =>
      if sub.isPrefixOf (c :: rest) then removeFrom sub (sub.length - 1) rest
      else c :: removeFrom sub 0 rest

def remove (sub text : List Char) : List Char := removeFrom sub 0 text

/-- What `int` skips around a number. -/
def isSpace (c : Char) : Bool := c = ' ' ∨ ('\t' ≤ c ∧ c ≤ '\r')

/-- Hexadecimal digits with single underscores between them, after a digit. -/
def numeral (n : ℕ) : List Char → ℕ × List Char
  | '_' :: c :: rest =>
      match Percent.hexValue c with
      | some d => numeral (16 * n + d) rest
      | none => (n, '_' :: c :: rest)
  | c :: rest =>
      match Percent.hexValue c with
      | some d => numeral (16 * n + d) rest
      | none => (n, c :: rest)
  | [] => (n, [])

/-- Without a sign; a minus gives `true`. -/
def sign : List Char → Bool × List Char
  | '-' :: rest => (true, rest)
  | '+' :: rest => (false, rest)
  | text => (false, text)

/-- Without the prefix of the base, which one underscore may follow. -/
def afterPrefix : List Char → List Char
  | '0' :: 'x' :: '_' :: rest => rest
  | '0' :: 'X' :: '_' :: rest => rest
  | '0' :: 'x' :: rest => rest
  | '0' :: 'X' :: rest => rest
  | text => text

/-- `int(text, 16)`; `none` is a `ValueError`. A digit or a space outside ASCII counts as the
character of ASCII that `ascii` gives for it. -/
def int16 (ascii : Char → Char) (text : List Char) : Option ℤ :=
  let text := (text.map fun c => if c.toNat < 127 then c else ascii c).dropWhile isSpace
  match afterPrefix (sign text).2 with
  | [] => none
  | c :: rest =>
      match Percent.hexValue c with
      | none => none
      | some d =>
          let parsed := numeral d rest
          if parsed.2.all isSpace then some (if (sign text).1 then -parsed.1 else parsed.1) else none

/-- `uuid.UUID(text)`; `none` is a `ValueError`. -/
def parse (ascii : Char → Char) (text : List Char) : Option UUID :=
  let hex := (Strings.strip (fun c => c = '{' ∨ c = '}')
    (remove "uuid:".toList (remove "urn:".toList text))).filter (· ≠ '-')
  if hex.length ≠ 32 then none
  else
    match int16 ascii hex with
    | none => none
    | some n => if 0 ≤ n ∧ n < 2 ^ 128 then some (BitVec.ofNat 128 n.toNat) else none

/-! ## What is written reads back -/

/-- The digits are those of the number, after zeros. -/
theorem hex_eq (u : UUID) : hex u =
    List.replicate (32 - (Nat.toDigits 16 u.toNat).length) '0' ++ Nat.toDigits 16 u.toNat := rfl

/-- There are no more than 32. -/
theorem length_toDigits (u : UUID) : (Nat.toDigits 16 u.toNat).length ≤ 32 :=
  (Nat.length_toDigits_le_iff (by decide) (by decide)).mpr u.isLt

/-- There are 32 with the zeros. -/
theorem length_hex (u : UUID) : (hex u).length = 32 := by
  have := length_toDigits u
  rw [hex_eq, List.length_append, List.length_replicate]
  omega

/-- They are hexadecimal. -/
theorem isHexDigit_of_mem_hex {u : UUID} {c : Char} (h : c ∈ hex u) : Net.isHexDigit c = true := by
  rw [hex_eq, List.mem_append] at h
  rcases h with h | h
  · rw [List.eq_of_mem_replicate h]
    decide
  · exact Net.isHexDigit_of_mem_toDigits (by decide) (by decide) h

/-- Zeros at the beginning denote nothing. -/
theorem foldl_replicate_zero (n : ℕ) (digits : List Char) :
    Net.ofDigits 16 (List.replicate n '0' ++ digits) = Net.ofDigits 16 digits := by
  induction n with
  | zero => rfl
  | succ n ih =>
      rw [List.replicate_succ, List.cons_append]
      exact ih

/-- The digits denote the number. -/
theorem ofDigits_hex (u : UUID) : Net.ofDigits 16 (hex u) = u.toNat := by
  rw [hex_eq, foldl_replicate_zero, Net.ofDigits_toDigits (by decide) (by decide)]

/-- They are ASCII. -/
theorem toNat_lt_of_isHexDigit {c : Char} (h : Net.isHexDigit c = true) : c.toNat < 127 := by
  simp only [Net.isHexDigit, Char.isDigit, Bool.or_eq_true, Bool.and_eq_true,
    decide_eq_true_eq] at h
  have hle : ∀ {d : Char}, c ≤ d → c.toNat ≤ d.toNat := id
  rcases h with (⟨-, h⟩ | ⟨-, h⟩) | ⟨-, h⟩
  · exact lt_of_le_of_lt (hle h) (by decide)
  · exact lt_of_le_of_lt (hle h) (by decide)
  · exact lt_of_le_of_lt (hle h) (by decide)

/-- The characters that `parse` looks for, other than digits. -/
def marks : List Char := ['-', '+', '_', 'x', 'X', ':', '{', '}']

/-- A digit is read, and is neither a space nor a mark. -/
theorem hexDigit_spec {c : Char} (h : Net.isHexDigit c = true) :
    Percent.hexValue c = some (Net.digitValue c) ∧ isSpace c = false ∧ c ∉ marks := by
  have hall : ∀ n ∈ List.range 127, Net.isHexDigit (Char.ofNat n) = false ∨
      (Percent.hexValue (Char.ofNat n) = some (Net.digitValue (Char.ofNat n)) ∧
        isSpace (Char.ofNat n) = false ∧ Char.ofNat n ∉ marks) :=
    Strings.forall_of_all (by decide)
  have hc := hall c.toNat (List.mem_range.mpr (toNat_lt_of_isHexDigit h))
  rw [Char.ofNat_toNat, h] at hc
  exact hc.resolve_left (by decide)

/-- Nothing is removed where the character does not occur. -/
theorem removeFrom_eq_self {c : Char} {sub text : List Char} (h : c ∈ sub) (hc : c ∉ text) :
    remove sub text = text := by
  induction text with
  | nil => rfl
  | cons d text ih =>
      have hprefix : ¬ sub.isPrefixOf (d :: text) = true := by
        intro hprefix
        exact hc ((List.isPrefixOf_iff_prefix.mp hprefix).subset h)
      rw [remove, removeFrom, if_neg hprefix]
      exact congrArg (d :: ·) (ih fun hmem => hc (List.mem_cons_of_mem d hmem))

/-- Digits are read as a number, by induction on them. -/
theorem numeral_of_digits {digits : List Char} (h : ∀ c ∈ digits, Net.isHexDigit c = true) (n : ℕ) :
    numeral n digits = (digits.foldl (fun n c => 16 * n + Net.digitValue c) n, []) := by
  induction digits generalizing n with
  | nil => rfl
  | cons c digits ih =>
      rw [List.forall_mem_cons] at h
      obtain ⟨hvalue, -, hmarks⟩ := hexDigit_spec h.1
      rw [numeral.eq_def]
      split
      · rename_i heq
        rw [(List.cons.inj heq).1] at hmarks
        exact absurd (by decide) hmarks
      · rename_i heq
        obtain ⟨rfl, rfl⟩ := List.cons.inj heq
        rw [hvalue]
        exact ih h.2 _
      · cases ‹_ :: _ = []›

/-- The text has digits and dashes. -/
theorem str_chars {u : UUID} {c : Char} (h : c ∈ str u) : Net.isHexDigit c = true ∨ c = '-' := by
  have htake : ∀ {m n : ℕ}, c ∈ ((hex u).drop m).take n → Net.isHexDigit c = true := by
    intro m n hc
    exact isHexDigit_of_mem_hex (List.mem_of_mem_drop (List.mem_of_mem_take hc))
  simp only [str, List.mem_append, List.mem_cons] at h
  rcases h with h | h | h | h | h | h | h | h | h
  · exact .inl (isHexDigit_of_mem_hex (List.mem_of_mem_take h))
  · exact .inr h
  · exact .inl (htake h)
  · exact .inr h
  · exact .inl (htake h)
  · exact .inr h
  · exact .inl (htake h)
  · exact .inr h
  · exact .inl (isHexDigit_of_mem_hex (List.mem_of_mem_drop h))

/-- Without the dashes a UUID is its digits. -/
theorem filter_str (u : UUID) : (str u).filter (· ≠ '-') = hex u := by
  have hkeep : ∀ {l : List Char}, (∀ c ∈ l, c ∈ hex u) → l.filter (· ≠ '-') = l := by
    intro l hl
    refine List.filter_eq_self.mpr fun c hc => ?_
    obtain ⟨-, -, hmarks⟩ := hexDigit_spec (isHexDigit_of_mem_hex (hl c hc))
    rw [decide_eq_true_eq]
    rintro rfl
    exact hmarks (by decide)
  have htake : ∀ m n, ∀ c ∈ ((hex u).drop m).take n, c ∈ hex u :=
    fun m n c hc => List.mem_of_mem_drop (List.mem_of_mem_take hc)
  have hdash : ∀ l : List Char, ('-' :: l).filter (· ≠ '-') = l.filter (· ≠ '-') := fun l => rfl
  simp only [str, List.filter_append, hdash]
  rw [hkeep fun c hc => List.mem_of_mem_take hc, hkeep (htake 8 4), hkeep (htake 12 4),
    hkeep (htake 16 4), hkeep fun c hc => List.mem_of_mem_drop hc]
  have hjoin : ∀ m n, ((hex u).drop m).take n ++ (hex u).drop (m + n) = (hex u).drop m := by
    intro m n
    rw [← List.drop_drop, List.take_append_drop]
  rw [hjoin 16 4, hjoin 12 4, hjoin 8 4, List.take_append_drop]

/-- `int(hex, 16)` is the number. -/
theorem int16_hex (ascii : Char → Char) (u : UUID) : int16 ascii (hex u) = some (u.toNat : ℤ) := by
  have hdigits : ∀ c ∈ hex u, Net.isHexDigit c = true := fun c => isHexDigit_of_mem_hex
  have hascii : ((hex u).map fun c => if c.toNat < 127 then c else ascii c) = hex u := by
    rw [List.map_congr_left fun c hc => if_pos (toNat_lt_of_isHexDigit (hdigits c hc)), List.map_id']
  have hlength := length_hex u
  have hvalue := ofDigits_hex u
  obtain ⟨c, rest, hcons⟩ := List.exists_cons_of_ne_nil (List.ne_nil_of_length_eq_add_one hlength)
  rw [int16, hascii]
  rw [hcons] at hdigits hlength hvalue ⊢
  rw [List.forall_mem_cons] at hdigits
  obtain ⟨hc, hrest⟩ := hdigits
  obtain ⟨hhex, hspace, hmarks⟩ := hexDigit_spec hc
  have hdrop : (c :: rest).dropWhile isSpace = c :: rest :=
    List.dropWhile_cons_of_neg (by simp [hspace])
  have hsign : sign (c :: rest) = (false, c :: rest) := by
    rw [sign.eq_def]
    split
    · rename_i heq
      rw [(List.cons.inj heq).1] at hmarks
      exact absurd (by decide) hmarks
    · rename_i heq
      rw [(List.cons.inj heq).1] at hmarks
      exact absurd (by decide) hmarks
    · rfl
  have hprefix : afterPrefix (c :: rest) = c :: rest := by
    have hnext : ∀ {d : Char} {tail : List Char}, rest = d :: tail → d ∉ marks :=
      fun heq => (hexDigit_spec (hrest _ (heq ▸ List.mem_cons_self))).2.2
    rw [afterPrefix.eq_def]
    split
    iterate 4
      · rename_i heq
        exact absurd (by decide) (hnext (List.cons.inj heq).2)
    · rfl
  simp only [hdrop, hsign, hprefix, hhex, numeral_of_digits hrest]
  rw [Net.ofDigits, List.foldl_cons, Nat.mul_zero, Nat.zero_add] at hvalue
  rw [hvalue]
  rfl

/-- The text is not empty. -/
theorem str_ne_nil (u : UUID) : str u ≠ [] := by
  rw [str]
  exact List.append_ne_nil_of_right_ne_nil _ (List.cons_ne_nil _ _)

/-- The text of a UUID reads back as the UUID. -/
theorem parse_str (ascii : Char → Char) (u : UUID) : parse ascii (str u) = some u := by
  have hnot : ∀ {c : Char}, c ∈ marks → c ≠ '-' → c ∉ str u := by
    intro c hmarks hdash hc
    rcases str_chars hc with hhex | rfl
    · exact (hexDigit_spec hhex).2.2 hmarks
    · exact hdash rfl
  have hcolon : ':' ∉ str u := hnot (by decide) (by decide)
  have hbrace : ∀ c ∈ str u, decide (c = '{' ∨ c = '}') = false := by
    intro c hc
    rw [decide_eq_false_iff_not]
    rintro (rfl | rfl)
    · exact hnot (by decide) (by decide) hc
    · exact hnot (by decide) (by decide) hc
  have hstrip : Strings.strip (fun c => decide (c = '{' ∨ c = '}')) (str u) = str u :=
    Strings.strip_of_head_getLast _ (str_ne_nil u) (hbrace _ (List.head_mem _))
      (hbrace _ (List.getLast_mem _))
  rw [parse, removeFrom_eq_self (c := ':') (by decide) hcolon,
    removeFrom_eq_self (c := ':') (by decide) hcolon]
  simp only [hstrip, filter_str, length_hex, ne_eq, not_true_eq_false, if_false, int16_hex]
  have hlt : (u.toNat : ℤ) < 2 ^ 128 := by exact_mod_cast u.isLt
  rw [if_pos ⟨Int.natCast_nonneg _, hlt⟩, Int.toNat_natCast, BitVec.ofNat_toNat, BitVec.setWidth_eq]

end UuidText
