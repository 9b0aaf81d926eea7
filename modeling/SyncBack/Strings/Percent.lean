import Mathlib.Data.List.Basic
import Mathlib.Tactic.Common

/-!
# Percent-encoding

Bytes as ASCII text: a safe byte stands for itself, any other one is written as `%` and two
hexadecimal digits. `decode` reads both and refuses everything else (`decode_encode`); with UTF-8
below it, every text comes back (`decodeText_encodeText`).
-/

namespace Percent

/-- A digit, in upper case. -/
def hexDigit (n : ℕ) : Char := if n < 10 then Char.ofNat (0x30 + n) else Char.ofNat (0x37 + n)

/-- The value of a digit, in either case. -/
def hexValue (c : Char) : Option ℕ :=
  if '0' ≤ c ∧ c ≤ '9' then some (c.toNat - 0x30)
  else if 'A' ≤ c ∧ c ≤ 'F' then some (c.toNat - 0x37)
  else if 'a' ≤ c ∧ c ≤ 'f' then some (c.toNat - 0x57)
  else none

section

variable (safe : UInt8 → Bool)

def encodeByte (b : UInt8) : List Char :=
  if safe b = true then [Char.ofNat b.toNat]
  else ['%', hexDigit (b.toNat / 16), hexDigit (b.toNat % 16)]

def encode (bytes : List UInt8) : List Char := bytes.flatMap (encodeByte safe)

end

def decode : List Char → Option (List UInt8)
  | [] => some []
  | '%' :: high :: low :: rest =>
      match hexValue high, hexValue low with
      | some h, some l => (decode rest).map (UInt8.ofNat (16 * h + l) :: ·)
      | _, _ => none
  | c :: rest => if c = '%' ∨ 128 ≤ c.toNat then none else (decode rest).map (UInt8.ofNat c.toNat :: ·)

/-- The bytes of a text in UTF-8. -/
def utf8 (text : List Char) : List UInt8 := text.flatMap String.utf8EncodeChar

/-- The text with these bytes, if they are UTF-8. -/
def ofUtf8 (bytes : List UInt8) : Option (List Char) := bytes.toByteArray.utf8Decode?.map Array.toList

/-- A text in UTF-8, percent-encoded. -/
def encodeText (safe : UInt8 → Bool) (text : List Char) : List Char := encode safe (utf8 text)

/-- The text that is percent-encoded in UTF-8. -/
def decodeText (encoded : List Char) : Option (List Char) := (decode encoded).bind ofUtf8

/-! ## The characters of an encoding -/

/-- A property of safe characters, digits and `%` holds of all characters. -/
theorem forall_mem_encode {safe : UInt8 → Bool} {P : Char → Prop} (hpercent : P '%')
    (hdigit : ∀ n < 16, P (hexDigit n)) (hsafe : ∀ b, safe b = true → P (Char.ofNat b.toNat))
    (bytes : List UInt8) : ∀ c ∈ encode safe bytes, P c := by
  intro c hc
  obtain ⟨b, -, hc⟩ := List.mem_flatMap.mp hc
  unfold encodeByte at hc
  split at hc
  · rename_i hb
    rw [List.mem_singleton.mp hc]
    exact hsafe b hb
  · have hbyte := b.toNat_lt
    simp only [List.mem_cons, List.not_mem_nil, or_false] at hc
    rcases hc with rfl | rfl | rfl
    · exact hpercent
    · exact hdigit _ (by omega)
    · exact hdigit _ (by omega)

/-! ## Reading an encoding -/

/-- A hexadecimal digit has its value. -/
theorem hexValue_hexDigit : ∀ n < 16, hexValue (hexDigit n) = some n := by decide

/-- A byte as a character is that byte. -/
theorem toNat_ofNat_byte {b : UInt8} : (Char.ofNat b.toNat).toNat = b.toNat := by
  have hbyte := b.toNat_lt
  have hvalid : b.toNat.isValidChar := .inl (by omega)
  rw [Char.ofNat, dif_pos hvalid]
  rfl

/-- One encoded byte is read back. -/
theorem decode_encodeByte {safe : UInt8 → Bool}
    (hsafe : ∀ b, safe b = true → b.toNat < 128 ∧ b.toNat ≠ '%'.toNat) (b : UInt8)
    (rest : List Char) : decode (encodeByte safe b ++ rest) = (decode rest).map (b :: ·) := by
  unfold encodeByte
  split
  · rename_i hb
    obtain ⟨hascii, hpercent⟩ := hsafe b hb
    have hchar : Char.ofNat b.toNat ≠ '%' := fun heq =>
      hpercent (by rw [← toNat_ofNat_byte, heq])
    have hnot : ¬ (Char.ofNat b.toNat = '%' ∨ 128 ≤ (Char.ofNat b.toNat).toNat) := by
      rw [toNat_ofNat_byte]
      exact not_or.mpr ⟨hchar, Nat.not_le.mpr hascii⟩
    rw [List.singleton_append, decode, if_neg hnot, toNat_ofNat_byte, UInt8.ofNat_toNat]
    intro high low rest' heq
    exact absurd heq hchar
  · have hbyte := b.toNat_lt
    have hjoined : 16 * (b.toNat / 16) + b.toNat % 16 = b.toNat := Nat.div_add_mod _ _
    simp only [List.cons_append, List.nil_append, decode]
    rw [hexValue_hexDigit _ (by omega), hexValue_hexDigit _ (by omega)]
    dsimp only
    rw [hjoined, UInt8.ofNat_toNat]

/-- **Encoded bytes are read back.** -/
theorem decode_encode {safe : UInt8 → Bool}
    (hsafe : ∀ b, safe b = true → b.toNat < 128 ∧ b.toNat ≠ '%'.toNat) (bytes : List UInt8) :
    decode (encode safe bytes) = some bytes := by
  induction bytes with
  | nil => rfl
  | cons b bytes ih =>
      rw [encode, List.flatMap_cons, decode_encodeByte hsafe, ← encode, ih, Option.map_some]

/-- A text is decoded from its bytes. -/
theorem ofUtf8_utf8 (text : List Char) : ofUtf8 (utf8 text) = some text := by
  have hdecode := List.utf8Decode?_utf8Encode (l := text)
  rw [List.utf8Encode] at hdecode
  rw [ofUtf8, utf8, hdecode, Option.map_some]

/-- **Encoded texts are read back.** -/
theorem decodeText_encodeText {safe : UInt8 → Bool}
    (hsafe : ∀ b, safe b = true → b.toNat < 128 ∧ b.toNat ≠ '%'.toNat) (text : List Char) :
    decodeText (encodeText safe text) = some text := by
  rw [decodeText, encodeText, decode_encode hsafe, Option.bind_some, ofUtf8_utf8]

end Percent
