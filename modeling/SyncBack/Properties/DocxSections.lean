import SyncBack.Infrastructure.DocxParser
import SyncBack.Strings.Lines

/-!
# The offsets of the docx parser point into its text

The first loop counts a line feed after every paragraph, also after the last one, where the text has
none. The offset of a paragraph is all the same the length of the text before it
(`plainText_split`), since a section starts before its paragraph and not after it.
-/

namespace SyncBack

namespace DocxParser

variable {nfc : Text → Text}

/-- The text of some paragraphs with a line feed after each. -/
def textBefore (nfc : Text → Text) (paragraphs : List StyledParagraph) : Text :=
  paragraphs.flatMap fun paragraph => normalizeText nfc paragraph.text ++ ['\n']

/-- The text of some paragraphs with a line feed before each. -/
def textAfter (nfc : Text → Text) (paragraphs : List StyledParagraph) : Text :=
  paragraphs.flatMap fun paragraph => '\n' :: normalizeText nfc paragraph.text

/-- The sections that the first loop opens, for paragraphs that stand after `before`. -/
def opened (nfc : Text → Text) : List StyledParagraph → List StyledParagraph → List DocumentSection
  | _, [] => []
  | before, paragraph :: rest =>
      (if isHeading paragraph then
        [{ ref := refOf (normalizeText nfc paragraph.text)
           startOffset := (textBefore nfc before).length
           endOffset := (textBefore nfc before).length }]
      else []) ++ opened nfc (before ++ [paragraph]) rest

/-- One paragraph more. -/
theorem textBefore_concat (before : List StyledParagraph) (paragraph : StyledParagraph) :
    textBefore nfc (before ++ [paragraph]) =
      textBefore nfc before ++ (normalizeText nfc paragraph.text ++ ['\n']) := by
  simp [textBefore]

/-! ## The first loop -/

/-- **The first loop**, from the paragraphs `before` on. -/
theorem foldl_step : ∀ (before rest : List StyledParagraph) (sections : List DocumentSection),
    rest.foldl (Scan.step nfc)
        { sections, textParts := before.map fun p => normalizeText nfc p.text
          offset := (textBefore nfc before).length } =
      { sections := sections ++ opened nfc before rest
        textParts := (before ++ rest).map fun p => normalizeText nfc p.text
        offset := (textBefore nfc (before ++ rest)).length }
  | before, [], sections => by simp [opened]
  | before, paragraph :: rest, sections => by
      have hassoc : before ++ paragraph :: rest = before ++ [paragraph] ++ rest := by simp
      have hstep : Scan.step nfc
          { sections, textParts := before.map fun p => normalizeText nfc p.text
            offset := (textBefore nfc before).length } paragraph =
          { sections := sections ++ (if isHeading paragraph then
              [{ ref := refOf (normalizeText nfc paragraph.text)
                 startOffset := (textBefore nfc before).length
                 endOffset := (textBefore nfc before).length }] else [])
            textParts := (before ++ [paragraph]).map fun p => normalizeText nfc p.text
            offset := (textBefore nfc (before ++ [paragraph])).length } := by
        rw [textBefore_concat]
        unfold Scan.step
        split <;> simp
      rw [List.foldl_cons, hstep, foldl_step (before ++ [paragraph]) rest, hassoc, opened,
        List.append_assoc]

/-- **What `parse` returns.** -/
theorem parse_eq (paragraphs : List StyledParagraph) :
    parse nfc paragraphs =
      { plainText := plainText nfc (paragraphs.map StyledParagraph.toParagraph)
        sections := closeSections
          (plainText nfc (paragraphs.map StyledParagraph.toParagraph)).length
          (opened nfc [] paragraphs) } := by
  have hloop : paragraphs.foldl (Scan.step nfc) {} =
      { sections := opened nfc [] paragraphs
        textParts := paragraphs.map fun p => normalizeText nfc p.text
        offset := (textBefore nfc paragraphs).length } := foldl_step [] paragraphs []
  have htext : ['\n'].intercalate (paragraphs.map fun p => normalizeText nfc p.text) =
      plainText nfc (paragraphs.map StyledParagraph.toParagraph) := by
    rw [plainText, List.map_map]
    rfl
  unfold parse
  rw [hloop]
  dsimp only
  rw [htext]

/-! ## Offsets -/

/-- **The text around a paragraph.** -/
theorem plainText_split (before : List StyledParagraph) (paragraph : StyledParagraph)
    (after : List StyledParagraph) :
    plainText nfc ((before ++ paragraph :: after).map StyledParagraph.toParagraph) =
      textBefore nfc before ++ normalizeText nfc paragraph.text ++ textAfter nfc after := by
  induction before with
  | nil =>
      rw [plainText, List.nil_append, List.map_cons, List.map_cons, Strings.intercalate_cons,
        List.map_map, List.flatMap_map]
      rfl
  | cons first before ih =>
      have hne : ((before ++ paragraph :: after).map StyledParagraph.toParagraph).map
          (fun p => normalizeText nfc p.text) ≠ [] := by simp
      rw [plainText, List.cons_append, List.map_cons, List.map_cons,
        Strings.intercalate_cons_of_ne_nil '\n' _ hne, ← plainText, ih]
      simp [textBefore]

/-- More paragraphs, more text. -/
theorem length_textBefore_le (before rest : List StyledParagraph) :
    (textBefore nfc before).length ≤ (textBefore nfc (before ++ rest)).length := by
  rw [textBefore, textBefore, List.flatMap_append, List.length_append]
  exact Nat.le_add_right _ _

/-- Each heading opens a section, by induction on the paragraphs. -/
theorem length_opened (rest : List StyledParagraph) : ∀ before,
    (opened nfc before rest).length = (rest.filter isHeading).length := by
  induction rest with
  | nil => exact fun _ => rfl
  | cons paragraph rest ih =>
      intro before
      rw [opened, List.length_append, ih, List.filter_cons]
      split
      · exact Nat.add_comm 1 _
      · exact Nat.zero_add _

/-- **The section with the number `k` is the one of the heading with that number.** -/
theorem getElem?_opened : ∀ {before rest : List StyledParagraph} {k : ℕ} {s : DocumentSection},
    (opened nfc before rest)[k]? = some s →
      ∃ between heading after, rest = between ++ heading :: after ∧ isHeading heading = true ∧
        (between.filter isHeading).length = k ∧ s.ref = refOf (normalizeText nfc heading.text) ∧
        s.startOffset = (textBefore nfc (before ++ between)).length
  | before, paragraph :: rest, k, s, h => by
      rw [opened] at h
      by_cases hheading : isHeading paragraph = true
      · rw [if_pos hheading, List.singleton_append] at h
        cases k with
        | zero =>
            obtain rfl := Option.some.inj h
            exact ⟨[], paragraph, rest, rfl, hheading, rfl, rfl, by rw [List.append_nil]⟩
        | succ k =>
            obtain ⟨between, heading, after, rfl, hhead, hcount, href, hstart⟩ := getElem?_opened h
            refine ⟨paragraph :: between, heading, after, rfl, hhead, ?_, href, ?_⟩
            · rw [List.filter_cons_of_pos hheading, List.length_cons, hcount]
            · rw [hstart, List.append_assoc, List.singleton_append]
      · rw [if_neg hheading, List.nil_append] at h
        obtain ⟨between, heading, after, rfl, hhead, hcount, href, hstart⟩ := getElem?_opened h
        refine ⟨paragraph :: between, heading, after, rfl, hhead, ?_, href, ?_⟩
        · rw [List.filter_cons_of_neg hheading, hcount]
        · rw [hstart, List.append_assoc, List.singleton_append]

/-- The sections start one after another. -/
theorem pairwise_opened (rest : List StyledParagraph) : ∀ before,
    (opened nfc before rest).Pairwise fun a b => a.startOffset ≤ b.startOffset := by
  induction rest with
  | nil => exact fun _ => List.Pairwise.nil
  | cons paragraph rest ih =>
      intro before
      rw [opened]
      split
      · refine List.pairwise_cons.mpr ⟨fun later hlater => ?_, ih _⟩
        obtain ⟨k, hk⟩ := List.mem_iff_getElem?.mp hlater
        obtain ⟨between, heading, after, -, -, -, -, hstart⟩ := getElem?_opened hk
        rw [hstart, List.append_assoc]
        exact length_textBefore_le before _
      · exact ih _

/-- Sections begin in order. -/
theorem startOffset_le_of_lt {before rest : List StyledParagraph} {k k' : ℕ}
    {s s' : DocumentSection} (hs : (opened nfc before rest)[k]? = some s)
    (hs' : (opened nfc before rest)[k']? = some s') (hlt : k < k') :
    s.startOffset ≤ s'.startOffset := by
  obtain ⟨hk, rfl⟩ := List.getElem?_eq_some_iff.mp hs
  obtain ⟨hk', rfl⟩ := List.getElem?_eq_some_iff.mp hs'
  exact List.pairwise_iff_getElem.mp (pairwise_opened rest before) k k' hk hk' hlt

/-- Each begins within the text. -/
theorem startOffset_le_length {paragraphs : List StyledParagraph} {k : ℕ} {s : DocumentSection}
    (hs : (opened nfc [] paragraphs)[k]? = some s) :
    s.startOffset ≤ (plainText nfc (paragraphs.map StyledParagraph.toParagraph)).length := by
  obtain ⟨before, heading, after, rfl, -, -, -, hstart⟩ := getElem?_opened hs
  rw [hstart, plainText_split, List.nil_append, List.append_assoc, List.length_append]
  exact Nat.le_add_right _ _

/-! ## The second loop -/

/-- Closing sections changes their ends alone. -/
theorem getElem?_closeSections (length : ℕ) (sections : List DocumentSection) (k : ℕ) :
    (closeSections length sections)[k]? = sections[k]?.map fun s =>
      { s with endOffset := (sections[k + 1]?.map DocumentSection.startOffset).getD length } := by
  rw [closeSections, List.getElem?_mapIdx]
  refine congrArg (Option.map · sections[k]?) (funext fun s => ?_)
  by_cases hnext : k + 1 < sections.length
  · rw [dif_pos hnext, List.getElem?_eq_getElem hnext]
    rfl
  · rw [dif_neg hnext, List.getElem?_eq_none (Nat.le_of_not_lt hnext)]
    rfl

/-- **The sections of a docx document lie in its text**: the section with the number `k` starts
where the text of the heading with that number does, and ends where the next one starts. -/
theorem docx_sections (nfc : Text → Text) (paragraphs : List StyledParagraph) :
    (parse nfc paragraphs).sections.length = (paragraphs.filter isHeading).length ∧
    ∀ k s, (parse nfc paragraphs).sections[k]? = some s →
      (∃ before heading after, paragraphs = before ++ heading :: after ∧
        isHeading heading = true ∧ (before.filter isHeading).length = k ∧
        s.ref = refOf (normalizeText nfc heading.text) ∧
        (parse nfc paragraphs).plainText =
          textBefore nfc before ++ normalizeText nfc heading.text ++ textAfter nfc after ∧
        s.startOffset = (textBefore nfc before).length ∧
        normalizeText nfc heading.text <+: (parse nfc paragraphs).plainText.drop s.startOffset) ∧
      s.endOffset = ((parse nfc paragraphs).sections[k + 1]?.map DocumentSection.startOffset).getD
        (parse nfc paragraphs).plainText.length ∧
      s.startOffset ≤ s.endOffset ∧ s.endOffset ≤ (parse nfc paragraphs).plainText.length := by
  rw [parse_eq]
  dsimp only
  set length := (plainText nfc (paragraphs.map StyledParagraph.toParagraph)).length
  constructor
  · rw [closeSections, List.length_mapIdx, length_opened]
  intro k s hs
  rw [getElem?_closeSections] at hs ⊢
  obtain ⟨open_, hopen, rfl⟩ := Option.map_eq_some_iff.mp hs
  refine ⟨?_, ?_, ?_, ?_⟩
  · obtain ⟨before, heading, after, rfl, hheading, hcount, href, hstart⟩ := getElem?_opened hopen
    rw [List.nil_append] at hstart
    refine ⟨before, heading, after, rfl, hheading, hcount, href, plainText_split .., hstart, ?_⟩
    dsimp only
    rw [hstart, plainText_split, List.append_assoc, List.drop_left]
    exact List.prefix_append _ _
  · rw [Option.map_map]
    rfl
  · dsimp only
    rcases hnext : (opened nfc [] paragraphs)[k + 1]? with _ | next
    · exact startOffset_le_length hopen
    · exact startOffset_le_of_lt hopen hnext (Nat.lt_succ_self k)
  · dsimp only
    rcases hnext : (opened nfc [] paragraphs)[k + 1]? with _ | next
    · exact le_rfl
    · exact startOffset_le_length hnext

end DocxParser

end SyncBack
