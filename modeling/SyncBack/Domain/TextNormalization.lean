import SyncBack.Domain.Entities
import SyncBack.Strings.Search

/-!
# Normalisation of text

`normalize_text` is applied by the parsers to the text of a document and by the exporters to the
fragments of a change. Its first stage, `unicodedata.normalize("NFC", …)`, is a table of the
Unicode standard and stands as the parameter `nfc`; the other two stages are written out.

Source: `app/domain/text_normalization.py`.
-/

namespace SyncBack

/-- `str.isspace` for one character, by its code point. -/
def isSpace (c : Char) : Bool :=
  c.toNat ∈ [0x20, 0x85, 0xa0, 0x1680, 0x2028, 0x2029, 0x202f, 0x205f, 0x3000] ||
    (0x09 ≤ c.toNat && c.toNat ≤ 0x0d) || (0x1c ≤ c.toNat && c.toNat ≤ 0x1f) ||
    (0x2000 ≤ c.toNat && c.toNat ≤ 0x200a)

/-- `str.strip()`. -/
def strip (text : Text) : Text := Strings.strip isSpace text

/-- Source: `_SPACE_LIKE`; `none` deletes the character. -/
def spaceLike (c : Char) : Option Char :=
  if c.toNat ∈ [0xa0, 0x202f, 0x2007, 0x2009] then some ' '
  else if c.toNat ∈ [0x200b, 0xfeff] then none
  else some c

/-- `str.replace("\r\n", "\n")`. -/
def crlfToLf : Text → Text
  | '\r' :: '\n' :: rest => '\n' :: crlfToLf rest
  | c :: rest => c :: crlfToLf rest
  | [] => []

/-- Source: `normalize_text`. -/
def normalizeText (nfc : Text → Text) (text : Text) : Text :=
  (crlfToLf (nfc text)).filterMap spaceLike

/-- The characters that the second and the third stage look at. -/
def IsLayout (c : Char) : Prop :=
  c.toNat ∈ [0x0a, 0x0d, 0x20, 0xa0, 0x202f, 0x2007, 0x2009, 0x200b, 0xfeff]

instance : DecidablePred IsLayout := fun _ => inferInstanceAs (Decidable (_ ∈ _))

/-- What the Unicode standard says of the composed form: it fixes ASCII, it is stable, a part of a
composed text is composed, and the layout characters neither compose with their neighbours nor
come out of other characters. -/
structure ComposedForm (nfc : Text → Text) : Prop where
  ascii : ∀ text : Text, (∀ c ∈ text, c.toNat < 128) → nfc text = text
  idempotent : ∀ text, nfc (nfc text) = nfc text
  part : ∀ pre text post, nfc (pre ++ text ++ post) = pre ++ text ++ post → nfc text = text
  layout : ∀ pre c post, IsLayout c → nfc (pre ++ c :: post) = nfc pre ++ c :: nfc post
  mem_of_mem : ∀ text c, IsLayout c → c ∈ nfc text → c ∈ text

/-- Nothing is composed: the composed form on ASCII texts. -/
theorem ComposedForm.id : ComposedForm id where
  ascii := fun _ _ => rfl
  idempotent := fun _ => rfl
  part := fun _ _ _ _ => rfl
  layout := fun _ _ _ _ => rfl
  mem_of_mem := fun _ _ _ h => h

/-! ## Each stage and the stages before it -/

/-- A character that begins no line end stays. -/
theorem crlfToLf_eq_cons {c : Char} {rest : Text} (h : c ≠ '\r' ∨ rest.head? ≠ some '\n') :
    crlfToLf (c :: rest) = c :: crlfToLf rest := by
  rw [crlfToLf]
  rintro rest' rfl rfl
  simp at h

/-- An induction along `crlfToLf`. -/
theorem crlf_induction {P : Text → Prop} (nil : P [])
    (crlf : ∀ rest, P rest → P ('\r' :: '\n' :: rest))
    (cons : ∀ c rest, c ≠ '\r' ∨ rest.head? ≠ some '\n' → P rest → P (c :: rest)) :
    ∀ text, P text := by
  intro text
  induction text using crlfToLf.induct with
  | case1 rest ih => exact crlf rest ih
  | case2 c rest h ih =>
      refine cons c rest ?_ ih
      by_contra hn
      obtain ⟨hc, hhead⟩ := not_or.mp hn
      obtain ⟨rest', hrest⟩ := List.head?_eq_some_iff.mp (not_not.mp hhead)
      exact h rest' (not_not.mp hc) hrest
  | case3 => exact nil

end SyncBack
