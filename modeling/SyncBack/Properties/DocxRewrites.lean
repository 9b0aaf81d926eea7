import SyncBack.Infrastructure.Exporters

/-!
# Paragraphs that the docx exporter rewrites

The exporter computes the new text from the text of the whole paragraph, hyperlinks included, and
writes it into the first run of the paragraph itself. Only the runs outside of hyperlinks are
cleared, so the text of the hyperlinks stays beside the new text that already holds it. The new
text of a deletion is not left out either. `docx_rewrite_iff` is the condition under which neither
shows.
-/

namespace SyncBack

/-- The text of the hyperlinks among the parts of a paragraph. -/
def linkText (inlines : List Inline) : Text :=
  ((inlines.filter fun inline => !inline.isRun).map Inline.text).flatten

namespace DocxExporter

/-! ## The text of a rewritten paragraph -/

/-- Clearing the runs leaves the hyperlinks. -/
theorem text_clearRun (inlines : List Inline) :
    ((inlines.map clearRun).map Inline.text).flatten = linkText inlines := by
  induction inlines with
  | nil => rfl
  | cons inline rest ih =>
      cases inline with
      | run text => simpa [clearRun, Inline.text, linkText, Inline.isRun] using ih
      | hyperlink text => simpa [clearRun, Inline.text, linkText, Inline.isRun] using ih

/-- The new text stands in the first run, between the hyperlinks before and after it. -/
theorem text_setFirstRun (newText : Text) :
    ∀ {inlines : List Inline}, inlines.filter Inline.isRun ≠ [] →
      ∃ before after, linkText inlines = before ++ after ∧
        ((setFirstRun newText (inlines.map clearRun)).map Inline.text).flatten =
          before ++ newText ++ after
  | [], h => absurd rfl h
  | .run text :: rest, _ => by
      refine ⟨[], linkText rest, by simp [linkText, Inline.isRun], ?_⟩
      rw [List.map_cons, clearRun, setFirstRun, List.map_cons, List.flatten_cons, text_clearRun]
      rfl
  | .hyperlink text :: rest, h => by
      have hrest : rest.filter Inline.isRun ≠ [] := by simpa [Inline.isRun] using h
      obtain ⟨before, after, hlinks, htext⟩ := text_setFirstRun newText hrest
      have hcons : linkText (.hyperlink text :: rest) = text ++ linkText rest := by
        simp [linkText, Inline.isRun, Inline.text]
      refine ⟨text ++ before, after, by rw [hcons, hlinks, List.append_assoc], ?_⟩
      rw [List.map_cons, clearRun, setFirstRun, List.map_cons, List.flatten_cons, htext, Inline.text]
      simp only [List.append_assoc]

/-- The new text stands where the runs were; the texts of hyperlinks stay around it. -/
theorem text_setParagraphText (paragraph : Paragraph) (newText : Text) :
    ∃ before after, linkText paragraph.inlines = before ++ after ∧
      (setParagraphText paragraph newText).text = before ++ newText ++ after := by
  unfold setParagraphText
  split
  · next h => exact text_setFirstRun newText h
  · refine ⟨linkText paragraph.inlines, [], (List.append_nil _).symm, ?_⟩
    rw [Paragraph.text, List.map_append, List.flatten_append, text_clearRun, List.append_nil]
    simp [Inline.text]

/-! ## The first paragraph with the fragment -/

section

variable {nfc : Text → Text}

/-- The first paragraph with the old text is rewritten, by induction on those before it. -/
theorem rewriteFirst_eq {old new : Text} {paragraph : Paragraph} {after : List Paragraph}
    (h : old <:+: normalizeText nfc paragraph.text) :
    ∀ {before : List Paragraph}, (∀ p ∈ before, ¬ old <:+: normalizeText nfc p.text) →
      rewriteFirst nfc old new (before ++ paragraph :: after) =
        before ++ setParagraphText paragraph
          (Strings.replaceFirst (normalizeText nfc paragraph.text) old new) :: after
  | [], _ => by
      rw [List.nil_append, rewriteFirst, if_pos h, List.nil_append]
  | first :: before, hbefore => by
      rw [List.cons_append, rewriteFirst, if_neg (hbefore first List.mem_cons_self),
        rewriteFirst_eq h fun p hp => hbefore p (List.mem_cons_of_mem _ hp), List.cons_append]

/-- A change that adds nothing rewrites. -/
theorem applyChange_rewrite {change : AppliedChange} (htype : change.changeType ≠ .add)
    (hold : normalizeText nfc change.old ≠ []) (paragraphs : List Paragraph) :
    applyChange nfc paragraphs change =
      rewriteFirst nfc (normalizeText nfc change.old) (change.newText.getD []) paragraphs := by
  unfold AppliedChange.old at hold ⊢
  unfold applyChange
  cases hc : change.changeType with
  | add => exact absurd hc htype
  | modify => exact if_neg hold
  | delete => exact if_neg hold

/-- **When a paragraph is rewritten to the text of the change.** Of the first paragraph with the
fragment, the hyperlinks must have no text, and a deletion must come without a new text. The other
paragraphs stay as they are. -/
theorem docx_rewrite_iff {change : AppliedChange} (htype : change.changeType ≠ .add)
    (hold : normalizeText nfc change.old ≠ []) {before after : List Paragraph}
    {paragraph : Paragraph}
    (hparagraph : normalizeText nfc change.old <:+: normalizeText nfc paragraph.text)
    (hbefore : ∀ p ∈ before, ¬ normalizeText nfc change.old <:+: normalizeText nfc p.text) :
    (∃ rewritten : Paragraph,
      applyChange nfc (before ++ paragraph :: after) change = before ++ rewritten :: after ∧
      rewritten.text = Strings.replaceFirst (normalizeText nfc paragraph.text)
        (normalizeText nfc change.old) change.replacement) ↔
    linkText paragraph.inlines = [] ∧
      (change.changeType = .delete → change.newText.getD [] = []) := by
  obtain ⟨pre, post, hfirst⟩ := Strings.exists_isFirst hparagraph
  obtain ⟨left, right, hlinks, htext⟩ := text_setParagraphText paragraph
    (Strings.replaceFirst (normalizeText nfc paragraph.text) (normalizeText nfc change.old)
      (change.newText.getD []))
  rw [applyChange_rewrite htype hold, rewriteFirst_eq hparagraph hbefore, hlinks]
  rw [hfirst.replaceFirst_eq] at htext
  constructor
  · rintro ⟨rewritten, heq, hrewritten⟩
    rw [List.append_cancel_left_eq, List.cons.injEq] at heq
    rw [← heq.1, hfirst.replaceFirst_eq, hfirst.replaceFirst_eq, htext] at hrewritten
    have hlength := congrArg List.length hrewritten
    have hle : change.replacement.length ≤ (change.newText.getD []).length := by
      unfold AppliedChange.replacement
      split <;> simp
    simp only [List.length_append] at hlength
    refine ⟨?_, fun hdelete => ?_⟩
    · rw [List.append_eq_nil_iff, ← List.length_eq_zero_iff, ← List.length_eq_zero_iff]
      omega
    · rw [AppliedChange.replacement, if_pos hdelete, List.length_nil] at hlength
      rw [← List.length_eq_zero_iff]
      omega
  · rintro ⟨hnolinks, hdelete⟩
    obtain ⟨rfl, rfl⟩ := List.append_eq_nil_iff.mp hnolinks
    have hnew : change.replacement = change.newText.getD [] := by
      unfold AppliedChange.replacement
      split
      · next h => exact (hdelete h).symm
      · rfl
    refine ⟨_, rfl, ?_⟩
    rw [hfirst.replaceFirst_eq, htext, hfirst.replaceFirst_eq, hnew, List.nil_append, List.append_nil]

end

/-- The second of two paragraphs, without hyperlinks. -/
theorem second_paragraph_rewritten :
    ∃ rewritten : Paragraph,
      applyChange id ([⟨[.hyperlink ['c']]⟩] ++ ⟨[.run ['a'], .run ['b']]⟩ :: [])
          ⟨.modify, some ['b'], some ['d']⟩ = [⟨[.hyperlink ['c']]⟩] ++ rewritten :: [] ∧
        rewritten.text = ['a', 'd'] :=
  (@docx_rewrite_iff id ⟨.modify, some ['b'], some ['d']⟩ (by decide) (by decide)
    [⟨[.hyperlink ['c']]⟩] [] ⟨[.run ['a'], .run ['b']]⟩ (by decide) (by decide)).mpr ⟨rfl, by decide⟩

/-- The text of a hyperlink is written into the first run, and stays in the hyperlink. -/
theorem link_text_doubled :
    ¬ ∀ (nfc : Text → Text) (change : AppliedChange) (before after : List Paragraph)
      (paragraph : Paragraph), change.changeType ≠ .add → normalizeText nfc change.old ≠ [] →
      normalizeText nfc change.old <:+: normalizeText nfc paragraph.text →
      (∀ p ∈ before, ¬ normalizeText nfc change.old <:+: normalizeText nfc p.text) →
      ∃ rewritten : Paragraph,
        applyChange nfc (before ++ paragraph :: after) change = before ++ rewritten :: after ∧
        rewritten.text = Strings.replaceFirst (normalizeText nfc paragraph.text)
          (normalizeText nfc change.old) change.replacement := by
  intro h
  obtain ⟨rewritten, heq, htext⟩ := h id ⟨.modify, some ['a'], some ['b']⟩ [] []
    ⟨[.run ['a'], .hyperlink ['c']]⟩ (by decide) (by decide) (by decide) (fun _ h => nomatch h)
  have hrewritten : [rewritten] = [⟨[.run ['b', 'c'], .hyperlink ['c']]⟩] := by
    rw [← List.nil_append [rewritten], ← heq]
    decide
  obtain rfl := List.singleton_injective hrewritten
  revert htext
  decide

end DocxExporter

end SyncBack
