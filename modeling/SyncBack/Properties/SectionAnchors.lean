import SyncBack.Infrastructure.MarkdownParser
import SyncBack.Properties.AdditionFrame
import SyncBack.Properties.NormalizedText
import SyncBack.Workers.SuggestionMapper

/-!
# Additions with an inferred anchor

An addition without an anchor gets the first paragraph of its section as its anchor, or the heading
when the mapper finds no paragraph. The anchor is a text, and the exporter looks for it from the
start of the document. `inferred_anchor_in_section_iff` says when the addition lands in its own
section: the first line that holds the anchor must belong to the section. For a text that
normalisation leaves alone, `anchorInSection_iff_of_normalized` says what that comes to.
-/

set_option linter.unusedSectionVars false

namespace SyncBack

/-- The lines of the text, cut at the first one whose heading text is that of the reference. -/
structure MatchingHeading (text sectionRef : Text) (above : List Text) (heading : Text)
    (below : List Text) : Prop where
  lines : text.splitOn '\n' = above ++ heading :: below
  wanted : SuggestionMapper.headingText sectionRef ≠ []
  heading : SuggestionMapper.headingText heading = SuggestionMapper.headingText sectionRef
  first : ∀ line ∈ above,
    SuggestionMapper.headingText line ≠ SuggestionMapper.headingText sectionRef

/-- The first paragraph after a heading, or the heading. -/
def sectionAnchor (heading : Text) (below : List Text) : Text :=
  match below.find? fun line => strip line ≠ [] with
  | some paragraph => strip paragraph
  | none => strip heading

/-- The anchor of a section is one of its lines, stripped. -/
theorem exists_line_of_sectionAnchor (heading : Text) (below : List Text) :
    ∃ line ∈ heading :: below, sectionAnchor heading below = strip line := by
  unfold sectionAnchor
  cases hfind : below.find? fun line => strip line ≠ [] with
  | none => exact ⟨heading, List.mem_cons_self, rfl⟩
  | some paragraph =>
      exact ⟨paragraph, List.mem_cons_of_mem _ (List.mem_of_find?_eq_some hfind), rfl⟩

/-- The first heading with the wanted text is found, by induction on the lines above it. -/
theorem anchorInLines_eq {wanted heading : Text} {below : List Text}
    (hheading : SuggestionMapper.headingText heading = wanted) :
    ∀ {above : List Text}, (∀ line ∈ above, SuggestionMapper.headingText line ≠ wanted) →
      SuggestionMapper.anchorInLines wanted (above ++ heading :: below) =
        some (sectionAnchor heading below)
  | [], _ => by
      rw [List.nil_append, SuggestionMapper.anchorInLines, if_pos hheading, sectionAnchor]
      cases below.find? fun line => strip line ≠ [] <;> rfl
  | line :: above, h => by
      rw [List.cons_append, SuggestionMapper.anchorInLines, if_neg (h line List.mem_cons_self)]
      exact anchorInLines_eq hheading fun l hl => h l (List.mem_cons_of_mem _ hl)

/-- So it is for the section of an item. -/
theorem MatchingHeading.inferAnchor_eq {text sectionRef heading : Text} {above below : List Text}
    (h : MatchingHeading text sectionRef above heading below) :
    SuggestionMapper.inferAnchor text sectionRef = some (sectionAnchor heading below) := by
  unfold SuggestionMapper.inferAnchor
  simp only [if_neg h.wanted, h.lines]
  exact anchorInLines_eq h.heading h.first

/-- The block stands after the heading and before the next heading line. -/
def AddedInSection (result : Text) (above : List Text) (heading : Text) (below : List Text)
    (block : Text) : Prop :=
  ∃ inside rest, below = inside ++ rest ∧ (∀ line ∈ inside, headingOf line = none) ∧
    BlockBetween result (['\n'].intercalate (above ++ heading :: inside)) block
      (['\n'].intercalate rest)

/-- The first line that holds the fragment belongs to the section: it is the heading or a line
after it, with no heading line between. -/
def FirstInSection (fragment : Text) (above : List Text) (heading : Text) (below : List Text) :
    Prop :=
  fragment ≠ [] ∧ (∀ line ∈ above, ¬ fragment <:+: line) ∧
    ∃ inside rest, below = inside ++ rest ∧ (∀ line ∈ inside, headingOf line = none) ∧
      ∃ line ∈ heading :: inside, fragment <:+: line

/-! ## Lines -/

/-- The first line with a fragment. -/
theorem exists_first_line {fragment : Text} :
    ∀ {lines : List Text}, (∃ line ∈ lines, fragment <:+: line) →
      ∃ before line after, lines = before ++ line :: after ∧ fragment <:+: line ∧
        ∀ l ∈ before, ¬ fragment <:+: l
  | [], h => by simp at h
  | first :: rest, h => by
      by_cases hfirst : fragment <:+: first
      · exact ⟨[], first, rest, rfl, hfirst, fun _ h => nomatch h⟩
      · have hrest : ∃ line ∈ rest, fragment <:+: line := by
          obtain ⟨line, hmem, hline⟩ := h
          rcases List.mem_cons.mp hmem with rfl | hmem
          · exact absurd hline hfirst
          · exact ⟨line, hmem, hline⟩
        obtain ⟨before, line, after, rfl, hline, hbefore⟩ := exists_first_line hrest
        exact ⟨first :: before, line, after, rfl, hline, List.forall_mem_cons.mpr ⟨hfirst, hbefore⟩⟩

/-- Empty lines around a block do not matter. -/
theorem BlockBetween.congr {result a a' block b b' : Text} (h : BlockBetween result a block b)
    (ha : Strings.nonEmptyLines '\n' a = Strings.nonEmptyLines '\n' a')
    (hb : Strings.nonEmptyLines '\n' b = Strings.nonEmptyLines '\n' b') :
    BlockBetween result a' block b' :=
  ⟨by rw [← ha, ← hb]; exact h.nonEmptyLines, by rw [← ha, ← hb]; exact h.oneEmptyLine⟩

section

variable {nfc : Text → Text} {text : Text} {change : AppliedChange}

/-- The anchor that the exporter looks for stands on one line. -/
theorem newline_not_mem_exporterAnchor (hnfc : ComposedForm nfc)
    (h : '\n' ∉ change.oldText.getD []) : '\n' ∉ exporterAnchor nfc change := by
  intro hmem
  have hnorm : '\n' ∈ normalizeText nfc (change.oldText.getD []) :=
    (Strings.strip_infix isSpace _).subset hmem
  obtain ⟨d, hd, hspace⟩ := List.mem_filterMap.mp hnorm
  obtain rfl : d = '\n' := by
    rcases spaceLike_cases d with h | ⟨-, h | h⟩ <;> rw [h] at hspace
    · exact Option.some.inj hspace
    · cases hspace
    · cases hspace
  exact h (hnfc.mem_of_mem _ _ (by decide) (mem_of_mem_crlfToLf hd))

/-- The block of an addition comes after the first line that holds the anchor. -/
theorem blockBetween_of_first_line {before after : List Text} {line : Text}
    (hlines : text.splitOn '\n' = before ++ line :: after)
    (hanchor : exporterAnchor nfc change ≠ []) (hnl : '\n' ∉ exporterAnchor nfc change)
    (hblock : ∃ c ∈ change.newText.getD [], c ≠ '\n')
    (hline : exporterAnchor nfc change <:+: line)
    (hbefore : ∀ l ∈ before, ¬ exporterAnchor nfc change <:+: l) :
    BlockBetween (TextExporter.placeAddition nfc text change)
      (['\n'].intercalate (before ++ [line])) (change.newText.getD [])
      (['\n'].intercalate after) := by
  have hlinenl : '\n' ∉ line :=
    Strings.not_mem_of_mem_splitOn (hlines ▸ by simp : line ∈ text.splitOn '\n')
  obtain ⟨pre, post, hfirst, hupto, hfollowing⟩ :=
    Strings.exists_isFirst_of_lines '\n' hanchor hnl hline hlinenl after before hbefore
  rw [← hlines, List.intercalate_splitOn] at hfirst
  refine (blockBetween_placeAddition hanchor hblock hfirst).congr ?_ ?_
  · rw [← hupto, upTo]
  · rw [following, hfollowing, Strings.nonEmptyLines_flatMap_cons]

/-! ## Where the block lands -/

/-- A line that no line of the text is as long as. -/
def freshLine (text : Text) : Text := List.replicate (text.length + 1) 'x'

/-- The line is none of the text's. -/
theorem freshLine_not_mem (text : Text) : freshLine text ∉ text.splitOn '\n' := by
  intro hmem
  have hinfix : freshLine text <:+: ['\n'].intercalate (text.splitOn '\n') :=
    Strings.infix_intercalate_of_mem hmem
  rw [List.intercalate_splitOn] at hinfix
  have hlength := hinfix.length_le
  rw [freshLine, List.length_replicate] at hlength
  omega

/-- It is a line of its own. -/
theorem nonEmptyLines_freshLine (text : Text) :
    Strings.nonEmptyLines '\n' (freshLine text) = [freshLine text] := by
  have hnl : '\n' ∉ freshLine text := fun h => by
    simpa [freshLine] using List.eq_of_mem_replicate h
  have hne : freshLine text ≠ [] := by simp [freshLine]
  rw [Strings.nonEmptyLines, List.splitOn_eq_singleton hnl]
  simp [hne]

/-- Of two ways to cut a list of lines, where the non-empty lines of the first parts are the same,
one cut comes after the other with empty lines between. -/
theorem cut_cases {a b a' b' : List Text} (h : a ++ b = a' ++ b')
    (hfilter : a.filter (· ≠ []) = a'.filter (· ≠ [])) :
    (∃ x, a' = a ++ x ∧ ∀ line ∈ x, line = []) ∨ ∃ x, a = a' ++ x ∧ ∀ line ∈ x, line = [] := by
  have hempty : ∀ x : List Text, x.filter (· ≠ []) = [] → ∀ line ∈ x, line = [] := by
    intro x hx line hmem
    simpa using List.filter_eq_nil_iff.mp hx line hmem
  rw [List.append_eq_append_iff] at h
  rcases h with ⟨x, rfl, -⟩ | ⟨x, rfl, -⟩
  · rw [List.filter_append, List.self_eq_append_right] at hfilter
    exact .inl ⟨x, rfl, hempty x hfilter⟩
  · rw [List.filter_append, List.append_right_eq_self] at hfilter
    exact .inr ⟨x, rfl, hempty x hfilter⟩

/-- An addition whose block stands in the section has its anchor there. -/
theorem firstInSection_of_added {above below : List Text} {heading : Text}
    (hlines : text.splitOn '\n' = above ++ heading :: below) (hheading : heading ≠ [])
    (hnl : '\n' ∉ exporterAnchor nfc change) (hnew : change.newText = some (freshLine text))
    (hadded : AddedInSection (TextExporter.placeAddition nfc text change) above heading below
      (freshLine text)) :
    FirstInSection (exporterAnchor nfc change) above heading below := by
  obtain ⟨inside, rest, rfl, hinside, hbetween, -⟩ := hadded
  have hlinesnl : ∀ line ∈ above ++ heading :: (inside ++ rest), '\n' ∉ line := fun line hmem =>
    Strings.not_mem_of_mem_splitOn (hlines ▸ hmem)
  have hfresh : ∀ lines : List Text, lines ⊆ above ++ heading :: (inside ++ rest) →
      freshLine text ∉ lines.filter (· ≠ []) := fun lines hsub hmem =>
    freshLine_not_mem text (hlines ▸ hsub (List.mem_of_mem_filter hmem))
  rw [nonEmptyLines_freshLine, Strings.nonEmptyLines_intercalate '\n' fun l hl => hlinesnl l (by grind),
    Strings.nonEmptyLines_intercalate '\n' fun l hl => hlinesnl l (by grind),
    List.append_assoc, List.singleton_append] at hbetween
  have hblock : ∃ c ∈ change.newText.getD [], c ≠ '\n' :=
    ⟨'x', by simp [hnew, freshLine], by decide⟩
  -- the fresh line would be a line of the text if the block were not added
  have hchanged : TextExporter.placeAddition nfc text change ≠ text := by
    intro heq
    rw [heq, Strings.nonEmptyLines, hlines] at hbetween
    refine hfresh _ (List.Subset.refl _) ?_
    rw [hbetween]
    simp
  have hne : exporterAnchor nfc change ≠ [] := by
    intro hnil
    refine hchanged ?_
    unfold TextExporter.placeAddition
    exact if_pos hnil
  have hinfix : exporterAnchor nfc change <:+: text := by
    by_contra hn
    exact hchanged (TextExporter.placeAddition_of_not_infix hn)
  have hwhole : ['\n'].intercalate (text.splitOn '\n') = text := List.intercalate_splitOn '\n'
  rw [← hwhole, Strings.infix_intercalate_iff hne hnl] at hinfix
  obtain ⟨before, line, after, hsplit, hline, hbefore⟩ := exists_first_line hinfix
  have hplaced := (blockBetween_of_first_line hsplit hne hnl hblock hline hbefore).nonEmptyLines
  rw [hlines] at hsplit
  have hmem : ∀ l, l ∈ before ++ line :: after → l ∈ above ++ heading :: (inside ++ rest) :=
    fun l hl => hsplit ▸ hl
  rw [hbetween, hnew, Option.getD_some, nonEmptyLines_freshLine,
    Strings.nonEmptyLines_intercalate '\n' fun l hl => hlinesnl l (hmem l (by grind)),
    Strings.nonEmptyLines_intercalate '\n' fun l hl => hlinesnl l (hmem l (by grind)),
    List.append_assoc, List.singleton_append] at hplaced
  obtain ⟨hfilter, -, -⟩ := (List.append_cons_inj_of_notMem
    (hfresh _ fun l hl => by grind) (hfresh _ fun l hl => hmem l (by grind))).mp hplaced
  have hcut : (above ++ heading :: inside) ++ rest = (before ++ [line]) ++ after := by
    simpa using hsplit
  have hlinene : line ≠ [] := by
    rintro rfl
    exact hne (List.infix_nil.mp hline)
  -- the cut after the anchor's line comes no later than the cut of the section
  obtain ⟨x, hx, hempty⟩ : ∃ x, above ++ heading :: inside = before ++ line :: x ∧
      ∀ l ∈ x, l = [] := by
    rcases cut_cases hcut hfilter with ⟨x, hx, hempty⟩ | ⟨x, hx, hempty⟩
    · rcases List.eq_nil_or_concat x with rfl | ⟨init, last, rfl⟩
      · exact ⟨[], by simpa using hx.symm, fun _ h => absurd h List.not_mem_nil⟩
      · rw [List.concat_eq_append, ← List.append_assoc] at hx
        have hlast := congrArg List.getLast? hx
        rw [List.getLast?_concat, List.getLast?_concat, Option.some.injEq] at hlast
        exact absurd (hempty last (by simp)) (hlast ▸ hlinene)
    · exact ⟨x, by simpa using hx, hempty⟩
  rw [List.append_eq_append_iff] at hx
  rcases hx with ⟨between, rfl, hsection⟩ | ⟨between, rfl, hsection⟩
  · exact ⟨hne, fun l hl => hbefore l (List.mem_append_left _ hl), inside, rest, rfl, hinside, line,
      hsection ▸ by simp, hline⟩
  · rcases List.cons_eq_append_iff.mp hsection with ⟨rfl, hcons⟩ | ⟨between, rfl, hcons⟩
    · exact ⟨hne, fun l hl => hbefore l (by simpa using hl), inside, rest, rfl, hinside, line,
        hcons ▸ List.mem_cons_self, hline⟩
    · exact absurd (hempty heading (hcons ▸ by simp)) hheading

/-- An anchor in the section takes the block there. -/
theorem added_of_firstInSection {above below : List Text} {heading : Text}
    (hlines : text.splitOn '\n' = above ++ heading :: below)
    (hnl : '\n' ∉ exporterAnchor nfc change) (hblock : ∃ c ∈ change.newText.getD [], c ≠ '\n')
    (hfirst : FirstInSection (exporterAnchor nfc change) above heading below) :
    AddedInSection (TextExporter.placeAddition nfc text change) above heading below
      (change.newText.getD []) := by
  obtain ⟨hne, habove, inside, rest, rfl, hinside, hexists⟩ := hfirst
  obtain ⟨before, line, after, hsplit, hline, hbefore⟩ := exists_first_line hexists
  have hwhole : text.splitOn '\n' = (above ++ before) ++ line :: (after ++ rest) := by
    rw [hlines, ← List.cons_append, hsplit]
    simp
  have hbetween := blockBetween_of_first_line hwhole hne hnl hblock hline
    fun l hl => (List.mem_append.mp hl).elim (habove l) (hbefore l)
  rcases before with _ | ⟨first, before⟩
  · obtain ⟨rfl, rfl⟩ := List.cons.inj hsplit
    exact ⟨[], inside ++ rest, rfl, (fun _ h => nomatch h), by simpa using hbetween⟩
  · obtain ⟨rfl, rfl⟩ := List.cons.inj hsplit
    refine ⟨before ++ [line], after ++ rest, by simp, fun l hl => hinside l ?_, by simpa using hbetween⟩
    grind

/-- **When an inferred anchor puts every addition into its own section.** -/
theorem inferred_anchor_in_section_iff (hnfc : ComposedForm nfc) {sectionRef heading anchor : Text}
    {above below : List Text} (hmatch : MatchingHeading text sectionRef above heading below)
    (hanchor : SuggestionMapper.inferAnchor text sectionRef = some anchor) :
    (∀ change : AppliedChange, change.oldText = some anchor →
      (∃ c ∈ change.newText.getD [], c ≠ '\n') →
      AddedInSection (TextExporter.placeAddition nfc text change) above heading below
        (change.newText.getD [])) ↔
    FirstInSection (strip (normalizeText nfc anchor)) above heading below := by
  have hheading : heading ≠ [] := by
    rintro rfl
    exact hmatch.wanted (hmatch.heading ▸ rfl)
  have hanchornl : '\n' ∉ anchor := by
    obtain ⟨line, hmem, hline⟩ := exists_line_of_sectionAnchor heading below
    rw [hmatch.inferAnchor_eq, Option.some.injEq] at hanchor
    have hsub : line ∈ text.splitOn '\n' := hmatch.lines ▸ List.mem_append_right _ hmem
    rw [← hanchor, hline]
    exact fun h => Strings.not_mem_of_mem_splitOn hsub ((Strings.strip_infix isSpace line).subset h)
  have hexported : ∀ change : AppliedChange, change.oldText = some anchor →
      exporterAnchor nfc change = strip (normalizeText nfc anchor) ∧
        '\n' ∉ exporterAnchor nfc change := fun change hold =>
    ⟨by rw [exporterAnchor, hold, Option.getD_some],
      newline_not_mem_exporterAnchor hnfc (by rwa [hold, Option.getD_some])⟩
  constructor
  · intro h
    obtain ⟨heq, hnl⟩ := hexported ⟨.add, some anchor, some (freshLine text)⟩ rfl
    rw [← heq]
    exact firstInSection_of_added hmatch.lines hheading hnl rfl
      (h _ rfl ⟨'x', by simp [freshLine], by decide⟩)
  · intro h change hold hblock
    obtain ⟨heq, hnl⟩ := hexported change hold
    exact added_of_firstInSection hmatch.lines hnl hblock (heq ▸ h)

/-! ## Texts that normalisation leaves alone -/

/-- A blank line is no heading. -/
theorem headingOf_eq_none_of_blank {line : Text} (h : strip line = []) : headingOf line = none := by
  unfold headingOf
  refine if_neg fun hheading => ?_
  obtain ⟨c, hc⟩ := List.exists_mem_of_length_pos hheading.1.1
  obtain rfl : c = '#' := by simpa using List.mem_takeWhile_imp hc
  have hspace := (Strings.strip_eq_nil_iff isSpace line).mp h '#' ((List.takeWhile_sublist _).subset hc)
  cases hspace

/-- A line with a fragment is not blank. -/
theorem strip_ne_nil_of_infix {fragment line : Text} (hstrip : strip fragment ≠ [])
    (h : fragment <:+: line) : strip line ≠ [] := by
  intro hline
  refine hstrip ((Strings.strip_eq_nil_iff isSpace fragment).mpr fun c hc => ?_)
  exact (Strings.strip_eq_nil_iff isSpace line).mp hline c (h.subset hc)

/-- In a text that normalisation leaves alone, the anchor may occur in no line before the heading,
and the first paragraph must not be the next heading, unless the heading holds its text. -/
theorem anchorInSection_iff_of_normalized (hnfc : ComposedForm nfc)
    (htext : normalizeText nfc text = text) {sectionRef heading : Text} {above below : List Text}
    (hmatch : MatchingHeading text sectionRef above heading below) :
    FirstInSection (strip (normalizeText nfc (sectionAnchor heading below))) above heading below ↔
      (∀ line ∈ above, ¬ sectionAnchor heading below <:+: line) ∧
        (sectionAnchor heading below <:+: heading ∨
          ∃ paragraph, below.find? (fun line => strip line ≠ []) = some paragraph ∧
            headingOf paragraph = none) := by
  obtain ⟨line, hmem, hline⟩ := exists_line_of_sectionAnchor heading below
  have hin : line ∈ text.splitOn '\n' := hmatch.lines ▸ List.mem_append_right _ hmem
  have hpart : sectionAnchor heading below <:+: text := by
    have hinfix : line <:+: ['\n'].intercalate (text.splitOn '\n') :=
      Strings.infix_intercalate_of_mem hin
    rw [List.intercalate_splitOn] at hinfix
    have hstrip : sectionAnchor heading below <:+: line := by
      rw [hline]
      exact Strings.strip_infix isSpace line
    exact hstrip.trans hinfix
  have hfixed : strip (sectionAnchor heading below) = sectionAnchor heading below := by
    rw [hline]
    exact Strings.strip_strip isSpace line
  have hheading : strip heading ≠ [] := by
    intro h
    refine hmatch.wanted (hmatch.heading ▸ ?_)
    rw [SuggestionMapper.headingText, h]
    rfl
  have hne : sectionAnchor heading below ≠ [] := by
    unfold sectionAnchor
    split
    · next paragraph hfind => simpa using List.find?_some hfind
    · exact hheading
  rw [hnfc.normalizeText_part htext hpart, hfixed]
  constructor
  · rintro ⟨-, habove, inside, rest, hsplit, hinside, l, hl, hanchor⟩
    refine ⟨habove, ?_⟩
    rcases List.mem_cons.mp hl with rfl | hl
    · exact .inl hanchor
    · -- the line is not blank, so that the first paragraph comes no later
      have hblank : strip l ≠ [] := strip_ne_nil_of_infix (hfixed.symm ▸ hne) hanchor
      have hsome : (inside.find? fun line => strip line ≠ []).isSome :=
        List.find?_isSome.mpr ⟨l, hl, by simpa using hblank⟩
      obtain ⟨paragraph, hfind⟩ := Option.isSome_iff_exists.mp hsome
      refine .inr ⟨paragraph, ?_, hinside paragraph (List.mem_of_find?_eq_some hfind)⟩
      rw [hsplit, List.find?_append, hfind, Option.some_or]
  · rintro ⟨habove, h⟩
    refine ⟨hne, habove, ?_⟩
    rcases h with h | ⟨paragraph, hfind, hnone⟩
    · exact ⟨[], below, rfl, (fun _ h => nomatch h), heading, List.mem_cons_self, h⟩
    · obtain ⟨-, blank, rest, hsplit, hblank⟩ := List.find?_eq_some_iff_append.mp hfind
      have hanchor : sectionAnchor heading below = strip paragraph := by
        rw [sectionAnchor, hfind]
      refine ⟨blank ++ [paragraph], rest, by simp [hsplit], fun l hl => ?_, paragraph, by simp,
        hanchor ▸ Strings.strip_infix isSpace paragraph⟩
      rcases List.mem_append.mp hl with hl | hl
      · exact headingOf_eq_none_of_blank (by simpa using hblank l hl)
      · rwa [List.mem_singleton.mp hl]

end

/-! ## Two sections -/

/-- The section has a paragraph. -/
theorem paragraph_in_section :
    AddedInSection
      (TextExporter.placeAddition id "# A\n\ntext\n# B".toList
        { changeType := .add, oldText := some "text".toList, newText := some "x".toList })
      [] "# A".toList ["".toList, "text".toList, "# B".toList] "x".toList :=
  (@inferred_anchor_in_section_iff id "# A\n\ntext\n# B".toList ComposedForm.id "A".toList
      "# A".toList "text".toList [] ["".toList, "text".toList, "# B".toList]
      ⟨by decide, by decide, by decide, fun _ h => nomatch h⟩ (by decide)).mpr
    ⟨by decide, (fun _ h => nomatch h), ["".toList, "text".toList], ["# B".toList], rfl, by decide,
      "text".toList, by decide, by decide⟩
    { changeType := .add, oldText := some "text".toList, newText := some "x".toList } rfl
    ⟨'x', by decide, by decide⟩

/-- The section has no paragraph: the next heading is taken for one, and the block goes after
it. -/
theorem added_after_next_heading :
    ¬ ∀ (nfc : Text → Text) (text sectionRef heading anchor : Text) (above below : List Text)
      (change : AppliedChange), ComposedForm nfc → normalizeText nfc text = text →
      MatchingHeading text sectionRef above heading below →
      SuggestionMapper.inferAnchor text sectionRef = some anchor →
      change.oldText = some anchor → (∃ c ∈ change.newText.getD [], c ≠ '\n') →
      AddedInSection (TextExporter.placeAddition nfc text change) above heading below
        (change.newText.getD []) := by
  intro h
  obtain ⟨inside, rest, hsplit, hinside, hbetween, -⟩ :=
    h id "# A\n\n# B\n\ntext".toList "A".toList "# A".toList "# B".toList []
      ["".toList, "# B".toList, "".toList, "text".toList]
      { changeType := .add, oldText := some "# B".toList, newText := some "x".toList }
      ComposedForm.id (by decide) ⟨by decide, by decide, by decide, fun _ h => nomatch h⟩ (by decide)
      rfl ⟨'x', by decide, by decide⟩
  rcases inside with _ | ⟨first, _ | ⟨second, inside⟩⟩
  · obtain rfl : _ = rest := hsplit
    revert hbetween
    decide +kernel
  · obtain ⟨rfl, rfl⟩ := List.cons.inj hsplit
    revert hbetween
    decide +kernel
  · obtain ⟨-, hsplit⟩ := List.cons.inj hsplit
    obtain ⟨rfl, -⟩ := List.cons.inj hsplit
    have hheading := hinside "# B".toList (by simp)
    revert hheading
    decide +kernel

end SyncBack
