import SyncBack.Core.ContentDisposition
import SyncBack.Net.HeaderValue

/-!
# No filename gets out of its header

Whatever the normalisation makes of a name, the ASCII variant keeps letters, digits and four more
characters, and the encoded name digits, letters, `%` and four more (`Inert`). None of them means
anything to a reader of the header; so the header has the parts that the template gives it.
-/

namespace SyncBack

namespace ContentDisposition

open HeaderValue (Calm parts calm_plain calm_quoted)

/-- A printable ASCII character without a meaning in a header value. -/
def Inert (c : Char) : Prop :=
  0x20 ≤ c.toNat ∧ c.toNat ≤ 0x7e ∧ c ≠ '"' ∧ c ≠ '\\' ∧ c ≠ ';'

instance : DecidablePred Inert := fun _ => inferInstanceAs (Decidable (_ ∧ _))

/-! ## The ASCII variant -/

/-- A safe character is ASCII. -/
theorem lt_of_isSafeAscii {c : Char} (h : isSafeAscii c = true) : c.toNat < 128 := by
  delta isSafeAscii Char.isAlphanum Char.isDigit Char.isAlpha Char.isLower Char.isUpper at h
  simp only [Bool.or_eq_true, Bool.and_eq_true, decide_eq_true_eq, ge_iff_le,
    UInt32.le_iff_toNat_le] at h
  rcases h with (((((⟨-, h⟩ | ⟨-, h⟩) | ⟨-, h⟩) | rfl) | rfl) | rfl) | rfl
  · exact h.trans_lt (by decide)
  · exact h.trans_lt (by decide)
  · exact h.trans_lt (by decide)
  all_goals decide

/-- It is inert. -/
theorem inert_of_isSafeAscii {c : Char} (h : isSafeAscii c = true) : Inert c := by
  have hall : ∀ n < 128, isSafeAscii (Char.ofNat n) = true → Inert (Char.ofNat n) := by decide
  have hc := hall c.toNat (lt_of_isSafeAscii h)
  rw [Char.ofNat_toNat] at hc
  exact hc h

/-- A masked text has inert characters. -/
theorem inert_of_mem_maskUnsafe {text : Text} : ∀ c ∈ maskUnsafe text, Inert c := by
  intro c hc
  obtain ⟨d, -, rfl⟩ := List.mem_map.mp hc
  split
  · rename_i hsafe
    exact inert_of_isSafeAscii hsafe
  · decide

/-- So has the ASCII name. -/
theorem inert_of_mem_asciiName (nfkd : Text → Text) (filename : Text) :
    ∀ c ∈ asciiName nfkd filename, Inert c := by
  intro c hc
  unfold asciiName at hc
  dsimp only at hc
  split at hc
  · exact Strings.forall_of_all (by decide) c hc
  · exact inert_of_mem_maskUnsafe c ((Strings.strip_infix _ _).subset hc)

/-! ## The encoded name -/

/-- A byte that is always safe is an inert character other than `%`. -/
theorem alwaysSafe_spec {b : UInt8} (h : alwaysSafe b = true) :
    (b.toNat < 128 ∧ b.toNat ≠ '%'.toNat) ∧ Inert (Char.ofNat b.toNat) := by
  have hall : ∀ n < 256, alwaysSafe (UInt8.ofNat n) = true →
      (n < 128 ∧ n ≠ '%'.toNat) ∧ Inert (Char.ofNat n) := by decide +kernel
  have hb := hall b.toNat b.toNat_lt
  rw [UInt8.ofNat_toNat] at hb
  exact hb h

/-- A quoted name has inert characters. -/
theorem inert_of_mem_quote (filename : Text) : ∀ c ∈ quote filename, Inert c :=
  Percent.forall_mem_encode (by decide) (by decide) (fun _ hb => (alwaysSafe_spec hb).2) _

/-- **The name comes back.** -/
theorem decodeText_quote (filename : Text) : Percent.decodeText (quote filename) = some filename :=
  Percent.decodeText_encodeText (fun _ hb => (alwaysSafe_spec hb).1) filename

/-! ## The header -/

/-- The header, with the characters that mean something set apart. -/
theorem contentDisposition_eq (nfkd : Text → Text) (filename : Text) (inline : Bool) :
    contentDisposition nfkd filename inline =
      disposition inline ++ ';' :: (" filename=".toList ++ '"' :: (asciiName nfkd filename ++
        '"' :: ';' :: (" filename*=UTF-8''".toList ++ quote filename))) := by
  simp [contentDisposition]

/-- So has the disposition. -/
theorem inert_of_mem_disposition (inline : Bool) : ∀ c ∈ disposition inline, Inert c := by
  cases inline <;> exact Strings.forall_of_all (by decide)

/-- So has the label of the plain name. -/
theorem inert_of_mem_label : ∀ c ∈ " filename=".toList, Inert c := Strings.forall_of_all (by decide)

/-- So has the extended value. -/
theorem inert_of_mem_value (filename : Text) :
    ∀ c ∈ " filename*=UTF-8''".toList ++ quote filename, Inert c := by
  have hlabel : ∀ c ∈ " filename*=UTF-8''".toList, Inert c := Strings.forall_of_all (by decide)
  intro c hc
  rcases List.mem_append.mp hc with hc | hc
  · exact hlabel c hc
  · exact inert_of_mem_quote filename c hc

/-- An inert character keeps both states of the reader. -/
theorem Inert.calm {c : Char} (h : Inert c) : Calm .plain c ∧ Calm .quoted c :=
  ⟨calm_plain h.2.2.1 h.2.2.2.2, calm_quoted h.2.2.1 h.2.2.2.1⟩

/-- **The parts of the header are those of the template.** -/
theorem parts_contentDisposition (nfkd : Text → Text) (filename : Text) (inline : Bool) :
    parts .plain (contentDisposition nfkd filename inline) =
      [disposition inline, " filename=".toList ++ '"' :: (asciiName nfkd filename ++ ['"']),
        " filename*=UTF-8''".toList ++ quote filename] := by
  rw [contentDisposition_eq,
    HeaderValue.parts_append fun c hc => (inert_of_mem_disposition inline c hc).calm.1,
    HeaderValue.parts_semicolon,
    HeaderValue.parts_append fun c hc => (inert_of_mem_label c hc).calm.1, HeaderValue.parts_open,
    HeaderValue.parts_append fun c hc => (inert_of_mem_asciiName nfkd filename c hc).calm.2,
    HeaderValue.parts_close, HeaderValue.parts_semicolon,
    HeaderValue.parts_of_calm fun c hc => (inert_of_mem_value filename c hc).calm.1]
  simp

/-- A text of inert characters has no quotation mark. -/
theorem count_quote_of_inert {text : Text} (h : ∀ c ∈ text, Inert c) : text.count '"' = 0 :=
  List.count_eq_zero_of_not_mem fun hmem => (h _ hmem).2.2.1 rfl

/-- The header is printable ASCII without a backslash. -/
theorem printable_of_mem (nfkd : Text → Text) (filename : Text) (inline : Bool) :
    ∀ c ∈ contentDisposition nfkd filename inline,
      (0x20 ≤ c.toNat ∧ c.toNat ≤ 0x7e) ∧ c ≠ '\\' := by
  intro c hc
  have hinert : Inert c ∨ c = ';' ∨ c = '"' := by
    have hvalue := inert_of_mem_value filename c
    rw [contentDisposition_eq] at hc
    simp only [List.mem_append, List.mem_cons] at hc hvalue
    rcases hc with hc | rfl | hc | rfl | hc | rfl | rfl | hc
    · exact .inl (inert_of_mem_disposition inline c hc)
    · exact .inr (.inl rfl)
    · exact .inl (inert_of_mem_label c hc)
    · exact .inr (.inr rfl)
    · exact .inl (inert_of_mem_asciiName nfkd filename c hc)
    · exact .inr (.inr rfl)
    · exact .inr (.inl rfl)
    · exact .inl (hvalue hc)
  rcases hinert with h | rfl | rfl
  · exact ⟨⟨h.1, h.2.1⟩, h.2.2.2.1⟩
  · decide
  · decide

/-- **The header is printable, a filename adds neither a quote nor a parameter, and it comes back
whole.** -/
theorem content_disposition_safe (nfkd : Text → Text) (filename : Text) (inline : Bool) :
    (∀ c ∈ contentDisposition nfkd filename inline, 0x20 ≤ c.toNat ∧ c.toNat ≤ 0x7e) ∧
    (contentDisposition nfkd filename inline).count '"' = 2 ∧
    '\r' ∉ contentDisposition nfkd filename inline ∧
    '\n' ∉ contentDisposition nfkd filename inline ∧
    '\\' ∉ contentDisposition nfkd filename inline ∧
    ∃ name value : Text, '"' ∉ name ∧
      parts .plain (contentDisposition nfkd filename inline) =
        [disposition inline, " filename=".toList ++ '"' :: (name ++ ['"']),
          " filename*=UTF-8''".toList ++ value] ∧
      Percent.decodeText value = some filename := by
  have hdisposition := inert_of_mem_disposition inline
  have hname := inert_of_mem_asciiName nfkd filename
  have hvalue := inert_of_mem_value filename
  have hchars := printable_of_mem nfkd filename inline
  refine ⟨fun c hc => (hchars c hc).1, ?_, fun hc => ?_, fun hc => ?_, fun hc => (hchars _ hc).2 rfl,
    asciiName nfkd filename, quote filename, fun hmem => (hname _ hmem).2.2.1 rfl,
    parts_contentDisposition nfkd filename inline, decodeText_quote filename⟩
  · rw [contentDisposition_eq, List.count_append, List.count_cons_of_ne (by decide),
      List.count_append, List.count_cons_self, List.count_append, List.count_cons_self,
      List.count_cons_of_ne (by decide), count_quote_of_inert hdisposition,
      count_quote_of_inert inert_of_mem_label, count_quote_of_inert hname, count_quote_of_inert hvalue]
  · exact absurd (hchars _ hc).1.1 (by decide)
  · exact absurd (hchars _ hc).1.1 (by decide)

end ContentDisposition

end SyncBack
