import SyncBack.Domain.TextNormalization

/-!
# Normalising a text twice

`normalize_text` composes the text, turns `"\r\n"` into `"\n"` and then deletes the zero-width
characters. A text is left alone by a second pass iff it is composed, holds no `"\r\n"` and none of
the characters of the last stage (`normalizeText_eq_self_iff`). The last stage can make work for
the two stages before it: it can close a gap between a carriage return and a line feed, and between
a letter and its accent (`normalizeText_idempotent_iff`).
-/

set_option linter.unusedSectionVars false

namespace SyncBack

/-- The characters that the last stage deletes. -/
def IsZeroWidth (c : Char) : Prop := spaceLike c = none

instance : DecidablePred IsZeroWidth := fun _ => inferInstanceAs (Decidable (_ = none))

/-- The text without its zero-width characters. -/
def withoutZeroWidth (text : Text) : Text := text.filter fun c => ¬ IsZeroWidth c

/-- The text holds a carriage return with a line feed after it. -/
def HasCrlf (text : Text) : Prop := ['\r', '\n'] <:+: text

/-- A line end after zero-width characters alone. -/
def LineEndAhead (text : Text) : Prop :=
  ∃ gap rest, (∀ c ∈ gap, IsZeroWidth c) ∧
    (text = gap ++ '\n' :: rest ∨ text = gap ++ '\r' :: '\n' :: rest)

/-- A carriage return that is not part of a line end, with a line end after zero-width characters
alone. -/
def HasSplitLineEnd (text : Text) : Prop :=
  ∃ pre rest, text = pre ++ '\r' :: rest ∧ rest.head? ≠ some '\n' ∧ LineEndAhead rest

/-! ## The last stage -/

/-- Line ends stay. -/
theorem spaceLike_crlf : spaceLike '\n' = some '\n' ∧ spaceLike '\r' = some '\r' := by decide

/-- A character stays, or is a layout character that goes or becomes a space. -/
theorem spaceLike_cases (c : Char) :
    spaceLike c = some c ∨ IsLayout c ∧ (spaceLike c = some ' ' ∨ spaceLike c = none) := by
  unfold spaceLike
  split
  · next h => exact .inr ⟨by simp only [IsLayout, List.mem_cons, List.not_mem_nil, or_false] at h ⊢; omega, .inl rfl⟩
  · split
    · next h => exact .inr ⟨by simp only [IsLayout, List.mem_cons, List.not_mem_nil, or_false] at h ⊢; omega, .inr rfl⟩
    · exact .inl rfl

/-- Each character of the result is left alone by the last stage. -/
theorem spaceLike_of_mem {text : Text} {c : Char} (h : c ∈ text.filterMap spaceLike) :
    spaceLike c = some c := by
  obtain ⟨d, -, hd⟩ := List.mem_filterMap.mp h
  rcases spaceLike_cases d with h | ⟨-, h | h⟩
  · rw [h, Option.some.injEq] at hd
    rw [← hd, h]
  · rw [h, Option.some.injEq] at hd
    rw [← hd]
    decide
  · rw [h] at hd
    cases hd

/-- Nothing changes exactly when every character stays. -/
theorem filterMap_spaceLike_eq_self_iff {text : Text} :
    text.filterMap spaceLike = text ↔ ∀ c ∈ text, spaceLike c = some c := by
  constructor
  · intro h c hc
    exact spaceLike_of_mem (h.symm ▸ hc)
  · intro h
    induction text with
    | nil => rfl
    | cons c rest ih =>
        rw [List.filterMap_cons_some (h c List.mem_cons_self),
          ih fun d hd => h d (List.mem_cons_of_mem _ hd)]

/-- A character that stays. -/
theorem withoutZeroWidth_cons_of_some {c d : Char} {rest : Text} (h : spaceLike c = some d) :
    withoutZeroWidth (c :: rest) = c :: withoutZeroWidth rest := by
  simp [withoutZeroWidth, IsZeroWidth, h]

/-- A character that goes. -/
theorem withoutZeroWidth_cons_of_none {c : Char} {rest : Text} (h : spaceLike c = none) :
    withoutZeroWidth (c :: rest) = withoutZeroWidth rest := by
  simp [withoutZeroWidth, IsZeroWidth, h]

/-- A line end of two characters stays one. -/
theorem withoutZeroWidth_crlf (rest : Text) :
    withoutZeroWidth ('\r' :: '\n' :: rest) = '\r' :: '\n' :: withoutZeroWidth rest := by
  rw [withoutZeroWidth_cons_of_some spaceLike_crlf.2, withoutZeroWidth_cons_of_some spaceLike_crlf.1]

/-! ## Line ends -/

/-- Replacing line ends adds no character. -/
theorem mem_of_mem_crlfToLf {c : Char} : ∀ {text : Text}, c ∈ crlfToLf text → c ∈ text := by
  intro text
  induction text using crlf_induction with
  | nil => exact id
  | crlf rest ih =>
      intro h
      rcases List.mem_cons.mp h with rfl | h
      · simp
      · exact List.mem_cons_of_mem _ (List.mem_cons_of_mem _ (ih h))
  | cons d rest hd ih =>
      rw [crlfToLf_eq_cons hd]
      intro h
      rcases List.mem_cons.mp h with rfl | h
      · exact List.mem_cons_self
      · exact List.mem_cons_of_mem _ (ih h)

/-- A line end of two characters begins here or later. -/
theorem hasCrlf_cons {c : Char} {rest : Text} :
    HasCrlf (c :: rest) ↔ c = '\r' ∧ rest.head? = some '\n' ∨ HasCrlf rest := by
  unfold HasCrlf
  rw [List.infix_cons_iff, List.cons_prefix_cons]
  rcases rest with _ | ⟨d, rest⟩
  · simp
  · rw [List.cons_prefix_cons, List.head?_cons, Option.some.injEq]
    simp only [List.nil_prefix, and_true, eq_comm]

/-- Nothing is replaced exactly when there is none. -/
theorem crlfToLf_eq_self_iff (text : Text) : crlfToLf text = text ↔ ¬ HasCrlf text := by
  induction text using crlf_induction with
  | nil => simp [crlfToLf, HasCrlf]
  | crlf rest ih =>
      refine iff_of_false (fun h => ?_) fun h => h ⟨[], rest, rfl⟩
      rw [crlfToLf] at h
      simp at h
  | cons c rest hc ih =>
      rw [crlfToLf_eq_cons hc, List.cons.injEq, ih, hasCrlf_cons, not_or]
      simp only [true_and, not_and_or, ne_eq] at hc ⊢
      exact (and_iff_right hc).symm

/-! ## Composed texts -/

section

variable {nfc : Text → Text}

/-- Nothing is composed of nothing. -/
theorem ComposedForm.nil (hnfc : ComposedForm nfc) : nfc [] = [] :=
  hnfc.ascii [] fun _ h => nomatch h

/-- A layout character is a boundary: the two sides are composed on their own. -/
theorem ComposedForm.layout_iff (hnfc : ComposedForm nfc) {pre post : Text} {c : Char}
    (hc : IsLayout c) :
    nfc (pre ++ c :: post) = pre ++ c :: post ↔ nfc pre = pre ∧ nfc post = post := by
  constructor
  · intro h
    exact ⟨hnfc.part [] pre (c :: post) h, hnfc.part (pre ++ [c]) post [] (by simpa using h)⟩
  · rintro ⟨hpre, hpost⟩
    rw [hnfc.layout pre c post hc, hpre, hpost]

/-- The second stage keeps a text composed, and does not make it so. -/
theorem ComposedForm.crlfToLf_iff (hnfc : ComposedForm nfc) (text : Text) :
    ∀ pre, nfc (pre ++ crlfToLf text) = pre ++ crlfToLf text ↔
      nfc (pre ++ text) = pre ++ text := by
  induction text using crlf_induction with
  | nil => exact fun _ => Iff.rfl
  | crlf rest ih =>
      intro pre
      have hcons := ih []
      simp only [List.nil_append] at hcons
      rw [crlfToLf, hnfc.layout_iff (by decide), hnfc.layout_iff (by decide), hcons]
      have hlf := @ComposedForm.layout_iff _ hnfc [] rest '\n' (by decide)
      simp only [List.nil_append] at hlf
      rw [hlf, and_iff_right hnfc.nil]
  | cons c rest hc ih =>
      intro pre
      rw [crlfToLf_eq_cons hc]
      simpa using ih (pre ++ [c])

/-- After all stages the text is composed iff it is composed without its zero-width characters. -/
theorem ComposedForm.stages_iff (hnfc : ComposedForm nfc) (text : Text) :
    ∀ pre, nfc (pre ++ (crlfToLf text).filterMap spaceLike) =
        pre ++ (crlfToLf text).filterMap spaceLike ↔
      nfc (pre ++ withoutZeroWidth text) = pre ++ withoutZeroWidth text := by
  induction text using crlf_induction with
  | nil => exact fun _ => Iff.rfl
  | crlf rest ih =>
      intro pre
      have hrest := ih []
      have hlf := @ComposedForm.layout_iff _ hnfc [] (withoutZeroWidth rest) '\n' (by decide)
      simp only [List.nil_append] at hrest hlf
      rw [crlfToLf, List.filterMap_cons_some spaceLike_crlf.1, withoutZeroWidth_crlf,
        hnfc.layout_iff (by decide), hnfc.layout_iff (by decide), hlf, hrest, and_iff_right hnfc.nil]
  | cons c rest hc ih =>
      intro pre
      rw [crlfToLf_eq_cons hc]
      rcases spaceLike_cases c with h | ⟨hlayout, h | h⟩
      · rw [List.filterMap_cons_some h, withoutZeroWidth_cons_of_some h]
        simpa using ih (pre ++ [c])
      · have hrest := ih []
        simp only [List.nil_append] at hrest
        rw [List.filterMap_cons_some h, withoutZeroWidth_cons_of_some h,
          hnfc.layout_iff (by decide), hnfc.layout_iff hlayout, hrest]
      · rw [List.filterMap_cons_none h, withoutZeroWidth_cons_of_none h]
        exact ih pre

/-- A text is left alone iff each of the three stages leaves it alone. -/
theorem ComposedForm.normalizeText_eq_self_iff (hnfc : ComposedForm nfc) {text : Text} :
    normalizeText nfc text = text ↔
      nfc text = text ∧ ¬ HasCrlf text ∧ ∀ c ∈ text, spaceLike c = some c := by
  constructor
  · intro h
    have hspace : ∀ c ∈ text, spaceLike c = some c :=
      fun c hc => spaceLike_of_mem (h.symm ▸ hc : c ∈ normalizeText nfc text)
    -- the characters of the last stage do not come out of the composition
    have hcrlf : crlfToLf (nfc text) = text := by
      refine (filterMap_spaceLike_eq_self_iff.mpr fun c hc => ?_).symm.trans h
      rcases spaceLike_cases c with hc' | ⟨hlayout, hc'⟩
      · exact hc'
      · exact hspace c (hnfc.mem_of_mem text c hlayout (mem_of_mem_crlfToLf hc))
    have hcomposed : nfc text = text := by
      have hstage := (hnfc.crlfToLf_iff (nfc text) []).mpr (hnfc.idempotent text)
      rwa [List.nil_append, hcrlf] at hstage
    rw [hcomposed] at hcrlf
    exact ⟨hcomposed, (crlfToLf_eq_self_iff text).mp hcrlf, hspace⟩
  · rintro ⟨hcomposed, hcrlf, hspace⟩
    rw [normalizeText, hcomposed, (crlfToLf_eq_self_iff text).mpr hcrlf,
      filterMap_spaceLike_eq_self_iff.mpr hspace]

/-- A part of a text that is left alone is left alone. -/
theorem ComposedForm.normalizeText_part (hnfc : ComposedForm nfc) {text part : Text}
    (htext : normalizeText nfc text = text) (hpart : part <:+: text) :
    normalizeText nfc part = part := by
  rw [hnfc.normalizeText_eq_self_iff] at htext ⊢
  obtain ⟨hcomposed, hcrlf, hspace⟩ := htext
  refine ⟨?_, fun h => hcrlf (h.trans hpart), fun c hc => hspace c (hpart.subset hc)⟩
  obtain ⟨pre, post, rfl⟩ := hpart
  exact hnfc.part pre part post hcomposed

end

/-! ## Gaps that the last stage closes -/

/-- No line end comes where the text ends. -/
theorem not_lineEndAhead_nil : ¬ LineEndAhead [] := by
  rintro ⟨gap, rest, -, h | h⟩ <;> simp at h

/-- A line end comes here, or after characters of no width. -/
theorem lineEndAhead_cons {c : Char} {rest : Text} :
    LineEndAhead (c :: rest) ↔
      c = '\n' ∨ c = '\r' ∧ rest.head? = some '\n' ∨ IsZeroWidth c ∧ LineEndAhead rest := by
  constructor
  · rintro ⟨_ | ⟨d, gap⟩, post, hgap, h | h⟩ <;>
      simp only [List.nil_append, List.cons_append, List.cons.injEq] at h
    · exact .inl h.1
    · exact .inr (.inl ⟨h.1, by rw [h.2, List.head?_cons]⟩)
    · exact .inr (.inr ⟨h.1 ▸ hgap d List.mem_cons_self, gap, post,
        fun e he => hgap e (List.mem_cons_of_mem _ he), .inl h.2⟩)
    · exact .inr (.inr ⟨h.1 ▸ hgap d List.mem_cons_self, gap, post,
        fun e he => hgap e (List.mem_cons_of_mem _ he), .inr h.2⟩)
  · rintro (rfl | ⟨rfl, h⟩ | ⟨hc, gap, post, hgap, h⟩)
    · exact ⟨[], rest, (fun _ h => nomatch h), .inl rfl⟩
    · obtain ⟨post, rfl⟩ := List.head?_eq_some_iff.mp h
      exact ⟨[], post, (fun _ h => nomatch h), .inr rfl⟩
    · exact ⟨c :: gap, post, List.forall_mem_cons.mpr ⟨hc, hgap⟩,
        h.imp (fun h => by rw [h, List.cons_append]) fun h => by rw [h, List.cons_append]⟩

/-- A split line end begins here or later. -/
theorem hasSplitLineEnd_cons {c : Char} {rest : Text} :
    HasSplitLineEnd (c :: rest) ↔
      c = '\r' ∧ rest.head? ≠ some '\n' ∧ LineEndAhead rest ∨ HasSplitLineEnd rest := by
  constructor
  · rintro ⟨_ | ⟨d, pre⟩, post, h, hhead, hahead⟩ <;>
      simp only [List.nil_append, List.cons_append, List.cons.injEq] at h
    · exact .inl ⟨h.1, h.2 ▸ hhead, h.2 ▸ hahead⟩
    · exact .inr ⟨pre, post, h.2, hhead, hahead⟩
  · rintro (⟨rfl, hhead, hahead⟩ | ⟨pre, post, h, hhead, hahead⟩)
    · exact ⟨[], rest, rfl, hhead, hahead⟩
    · exact ⟨c :: pre, post, by rw [h, List.cons_append], hhead, hahead⟩

/-- The result starts with a line feed iff a line end comes after zero-width characters. -/
theorem head?_stages_iff (text : Text) :
    ((crlfToLf text).filterMap spaceLike).head? = some '\n' ↔ LineEndAhead text := by
  induction text using crlf_induction with
  | nil => exact iff_of_false (by simp [crlfToLf]) not_lineEndAhead_nil
  | crlf rest ih =>
      rw [crlfToLf, List.filterMap_cons_some spaceLike_crlf.1, lineEndAhead_cons]
      simp
  | cons c rest hc ih =>
      rw [crlfToLf_eq_cons hc, lineEndAhead_cons]
      rcases spaceLike_cases c with h | ⟨-, h | h⟩
      · rw [List.filterMap_cons_some h]
        simp only [List.head?_cons, Option.some.injEq, IsZeroWidth, h]
        grind
      · rw [List.filterMap_cons_some h]
        have hcrlf : c ≠ '\n' ∧ c ≠ '\r' := by
          constructor <;> rintro rfl <;> revert h <;> decide
        simp [IsZeroWidth, h, hcrlf]
      · rw [List.filterMap_cons_none h, ih]
        have hcrlf : c ≠ '\n' ∧ c ≠ '\r' := by
          constructor <;> rintro rfl <;> revert h <;> decide
        simp [IsZeroWidth, h, hcrlf]

/-- The result holds a `"\r\n"` iff a carriage return meets a line end when the zero-width
characters between them go, or when a `"\r\n"` after it becomes a line feed. -/
theorem hasCrlf_stages_iff (text : Text) :
    HasCrlf ((crlfToLf text).filterMap spaceLike) ↔ HasSplitLineEnd text := by
  induction text using crlf_induction with
  | nil =>
      refine iff_of_false (by simp [crlfToLf, HasCrlf]) ?_
      rintro ⟨pre, rest, h, -⟩
      simp at h
  | crlf rest ih =>
      rw [crlfToLf, List.filterMap_cons_some spaceLike_crlf.1, hasCrlf_cons, hasSplitLineEnd_cons,
        hasSplitLineEnd_cons, ih]
      simp
  | cons c rest hc ih =>
      rw [crlfToLf_eq_cons hc, hasSplitLineEnd_cons]
      rcases spaceLike_cases c with h | ⟨-, h⟩
      · rw [List.filterMap_cons_some h, hasCrlf_cons, head?_stages_iff, ih]
        grind
      · have hcr : c ≠ '\r' := by
          rintro rfl
          revert h
          decide
        rcases h with h | h
        · rw [List.filterMap_cons_some h, hasCrlf_cons, ih]
          simp [hcr]
        · rw [List.filterMap_cons_none h, ih]
          simp [hcr]

/-- **When `normalize_text` is idempotent.** Of the composed text, the last two stages must not put
a carriage return before a line feed, and the text without its zero-width characters must still be
composed. -/
theorem normalizeText_idempotent_iff {nfc : Text → Text} (hnfc : ComposedForm nfc) (text : Text) :
    normalizeText nfc (normalizeText nfc text) = normalizeText nfc text ↔
      ¬ HasSplitLineEnd (nfc text) ∧
        nfc (withoutZeroWidth (nfc text)) = withoutZeroWidth (nfc text) := by
  have hspace : ∀ c ∈ normalizeText nfc text, spaceLike c = some c := fun c hc => spaceLike_of_mem hc
  have hcomposed := hnfc.stages_iff (nfc text) []
  simp only [List.nil_append] at hcomposed
  rw [hnfc.normalizeText_eq_self_iff, and_iff_left hspace, normalizeText, hcomposed,
    hasCrlf_stages_iff, and_comm]

/-- A line end of two characters becomes one, and stays. -/
theorem crlf_normalized_once :
    normalizeText id (normalizeText id "a\r\nb".toList) = normalizeText id "a\r\nb".toList := by
  refine (normalizeText_idempotent_iff ComposedForm.id _).mpr ⟨fun h => ?_, rfl⟩
  rw [← hasCrlf_stages_iff, HasCrlf] at h
  revert h
  decide

/-- Of two carriage returns before a line feed the first pass takes the second, and leaves a line
end that the second pass takes. -/
theorem normalizeText_not_idempotent :
    ¬ ∀ nfc : Text → Text, (∀ text, (∀ c ∈ text, c.toNat < 128) → nfc text = text) →
      (∀ text, nfc (nfc text) = nfc text) →
      ∀ text, normalizeText nfc (normalizeText nfc text) = normalizeText nfc text := by
  intro h
  have hid := h id (fun _ _ => rfl) (fun _ => rfl) "\r\r\n".toList
  revert hid
  decide

end SyncBack
