import SyncBack.Properties.AdditionFrame
import SyncBack.Properties.KeptChanges
import SyncBack.Properties.NormalizedText

/-!
# A modification that appends text

A modification whose new text starts with the old one is rewritten by the mapper into an addition
of the tail, after the last paragraph of the old text. The addition goes to the end of a line, and
the modification leaves the tail where the old text ends; `rewritten_modify_iff` compares the
characters of the two exports other than whitespace. Between the two places stands a part of the
document (`between`), and the two exports agree iff it does not matter which of the tail and that
part comes first.
-/

set_option linter.unusedSectionVars false

namespace SyncBack

/-- The characters of a text other than whitespace. -/
def nonSpace (text : Text) : Text := text.filter fun c => !isSpace c

/-- What is no space in two texts. -/
@[simp] theorem nonSpace_append (a b : Text) : nonSpace (a ++ b) = nonSpace a ++ nonSpace b :=
  List.filter_append a b

/-- The part of a text between two positions, whichever comes first. -/
def between (text : Text) (i j : ℕ) : Text := (text.take (max i j)).drop (min i j)

/-! ## What the trimming keeps -/

section trimming

variable {p q : Char → Bool} (hp : ∀ c, p c = true → q c = false) (text : Text)

include hp

/-- Characters that the filter drops are not missed at the start. -/
theorem filter_dropWhile : (text.dropWhile p).filter q = text.filter q := by
  have hlead : (text.takeWhile p).filter q = [] := by
    rw [List.filter_eq_nil_iff]
    intro c hc
    rw [hp c (List.mem_takeWhile_imp hc)]
    exact Bool.false_ne_true
  conv_rhs => rw [← List.takeWhile_append_dropWhile (p := p) (l := text)]
  rw [List.filter_append, hlead, List.nil_append]

/-- Nor at the end. -/
theorem filter_rdropWhile : (text.rdropWhile p).filter q = text.filter q := by
  have htrail : (text.rtakeWhile p).filter q = [] := by
    rw [List.filter_eq_nil_iff]
    intro c hc
    rw [hp c (List.mem_rtakeWhile_imp hc)]
    exact Bool.false_ne_true
  conv_rhs => rw [← List.rdropWhile_append_rtakeWhile (p := p) (l := text)]
  rw [List.filter_append, htrail, List.append_nil]

/-- Stripping takes away only what the filter drops. -/
theorem filter_strip : (Strings.strip p text).filter q = text.filter q := by
  rw [Strings.strip, filter_rdropWhile hp, filter_dropWhile hp]

end trimming

/-- Stripping takes only whitespace away. -/
theorem nonSpace_strip (text : Text) : nonSpace (strip text) = nonSpace text :=
  filter_strip (fun c h => by rw [h]; rfl) text

namespace TextExporter

/-- Of the characters other than line feeds, an insertion only adds those of the block. -/
theorem filter_insertBlock {q : Char → Bool} (hq : q '\n' = false) (text : Text) (position : ℕ)
    (block : Text) :
    (insertBlock text position block).filter q =
      (text.take position).filter q ++ block.filter q ++ (text.drop position).filter q := by
  have hnewlines : (['\n', '\n'] : Text).filter q = [] := by simp [hq]
  have hnewline : (['\n'] : Text).filter q = [] := by simp [hq]
  have htrim : ∀ c, decide (c = '\n') = true → q c = false := by
    intro c hc
    rw [of_decide_eq_true hc, hq]
  have hhead := filter_rdropWhile htrim (text.take position)
  have htail := filter_dropWhile htrim (text.drop position)
  have hjoined : (['\n', '\n'].intercalate
      ((if (text.take position).rdropWhile (· = '\n') = [] then []
        else [(text.take position).rdropWhile (· = '\n')]) ++ [block])).filter q =
      (text.take position).filter q ++ block.filter q := by
    rw [← hhead]
    split
    · next h => simp [h]
    · rw [List.singleton_append, List.intercalate_cons_cons, List.intercalate_singleton,
        List.filter_append, List.filter_append, hnewlines, List.append_nil]
  unfold insertBlock
  simp only [List.filter_append, hjoined, ← htail]
  split
  · next h =>
    rw [h, hnewline]
    rfl
  · rw [List.filter_append, hnewlines, List.nil_append]

/-- Of the characters other than whitespace, an addition only adds those of its block. -/
theorem nonSpace_placeAddition {nfc : Text → Text} {text pre post : Text} {change : AppliedChange}
    (hne : exporterAnchor nfc change ≠ [])
    (h : Strings.IsFirst text (exporterAnchor nfc change) pre post) :
    nonSpace (placeAddition nfc text change) =
      nonSpace (text.take (upTo pre (exporterAnchor nfc change) post).length) ++
        nonSpace (change.newText.getD []) ++
        nonSpace (text.drop (upTo pre (exporterAnchor nfc change) post).length) := by
  have hblock : nonSpace (block change) = nonSpace (change.newText.getD []) :=
    filter_strip (fun c hc => by rw [of_decide_eq_true hc]; rfl) _
  rw [placeAddition_of_isFirst hne h, nonSpace, filter_insertBlock (by decide),
    upTo_append_following, ← h.1, ← hblock]
  rfl

end TextExporter

/-! ## The two places -/

/-- A text put at one of two positions and at the other: the same, other than whitespace, iff it
commutes with what stands between. -/
theorem nonSpace_insert_eq_iff (text tail : Text) (i j : ℕ) :
    nonSpace (text.take i) ++ tail ++ nonSpace (text.drop i) =
        nonSpace (text.take j) ++ tail ++ nonSpace (text.drop j) ↔
      tail ++ nonSpace (between text i j) = nonSpace (between text i j) ++ tail := by
  have hordered : ∀ i j, i ≤ j →
      (nonSpace (text.take i) ++ tail ++ nonSpace (text.drop i) =
          nonSpace (text.take j) ++ tail ++ nonSpace (text.drop j) ↔
        tail ++ nonSpace (between text i j) = nonSpace (between text i j) ++ tail) := by
    intro i j hij
    have htake : text.take j = text.take i ++ between text i j := by
      have hsplit := List.take_append_drop i (text.take j)
      rw [List.take_take, min_eq_left hij] at hsplit
      rw [between, max_eq_right hij, min_eq_left hij, hsplit]
    have hdrop : text.drop i = between text i j ++ text.drop j := by
      have hsplit := List.drop_take_append_drop text i (j - i)
      rw [Nat.add_sub_cancel' hij] at hsplit
      rw [between, max_eq_right hij, min_eq_left hij, List.drop_take, hsplit]
    rw [htake, hdrop]
    simp only [nonSpace_append, List.append_assoc, List.append_cancel_left_eq]
    rw [← List.append_assoc, ← List.append_assoc, List.append_cancel_right_eq]
  rcases le_total i j with h | h
  · exact hordered i j h
  · have hcomm : between text i j = between text j i := by
      rw [between, between, max_comm, min_comm]
    rw [eq_comm, hordered j i h, hcomm]

/-! ## The rewritten item -/

/-- The last paragraph of a text is one of its lines. -/
theorem exists_line_of_lastParagraph {text : Text} (h : strip text ≠ []) :
    SuggestionMapper.lastParagraph text ≠ [] ∧
      ∃ line ∈ text.splitOn '\n', SuggestionMapper.lastParagraph text = strip line := by
  have hne : ((text.splitOn '\n').map strip).filter (· ≠ []) ≠ [] := by
    intro hnil
    refine h ((Strings.strip_eq_nil_iff isSpace text).mpr fun c hc => ?_)
    by_cases hnl : c = '\n'
    · rw [hnl]
      rfl
    · have hinfix : [c] <:+: text := (List.singleton_infix_iff _ _).mpr hc
      have hwhole : ['\n'].intercalate (text.splitOn '\n') = text := List.intercalate_splitOn '\n'
      rw [← hwhole,
        Strings.infix_intercalate_iff (List.cons_ne_nil _ _) (by simpa using Ne.symm hnl)] at hinfix
      obtain ⟨line, hline, hmem⟩ := hinfix
      have hblank : strip line = [] := by
        simpa using List.filter_eq_nil_iff.mp hnil (strip line) (List.mem_map_of_mem hline)
      exact (Strings.strip_eq_nil_iff isSpace line).mp hblank c ((List.singleton_infix_iff _ _).mp hmem)
  have hlast : SuggestionMapper.lastParagraph text ∈
      ((text.splitOn '\n').map strip).filter (· ≠ []) := by
    unfold SuggestionMapper.lastParagraph
    rw [List.getLastD_eq_getLast?, List.getLast?_eq_some_getLast hne, Option.getD_some]
    exact List.getLast_mem hne
  obtain ⟨hmem, hnonempty⟩ := List.mem_filter.mp hlast
  obtain ⟨line, hline, heq⟩ := List.mem_map.mp hmem
  exact ⟨by simpa using hnonempty, line, hline, heq.symm⟩

/-- The last paragraph is a stripped line of the text. -/
theorem strip_lastParagraph {text : Text} (h : strip text ≠ []) :
    strip (SuggestionMapper.lastParagraph text) = SuggestionMapper.lastParagraph text := by
  obtain ⟨-, line, -, hline⟩ := exists_line_of_lastParagraph h
  rw [hline]
  exact Strings.strip_strip isSpace line

/-- The new text is the stripped old one with something after it. -/
def AppendsTo (old new : Text) : Prop :=
  strip old ≠ [] ∧ (strip old).length < (strip new).length ∧ strip old <+: strip new

instance (old new : Text) : Decidable (AppendsTo old new) :=
  inferInstanceAs (Decidable (_ ∧ _ ∧ _))

/-- The new text is the old one with something after it, both stripped. -/
structure Appends (raw : LLMSuggestionItem) (old new : Text) : Prop where
  changeType : raw.changeType = "modify"
  oldText : raw.oldText = some old
  newText : raw.newText = some new
  old_ne_nil : strip old ≠ []
  extends_old : strip old <+: strip new
  longer : (strip old).length < (strip new).length

/-- A modification whose texts are given, as soon as the new one goes on after the old one. -/
theorem AppendsTo.appends {raw : LLMSuggestionItem} (hmodify : raw.changeType = "modify")
    (h : AppendsTo (raw.oldText.getD []) (raw.newText.getD [])) :
    Appends raw (raw.oldText.getD []) (raw.newText.getD []) := by
  obtain ⟨hne, hlonger, hprefix⟩ := h
  have hgiven : ∀ text : Option Text, text.getD [] ≠ [] → text = some (text.getD []) := by
    intro text htext
    cases text with
    | none => exact absurd rfl htext
    | some text => rfl
  refine ⟨hmodify, hgiven _ fun hnil => ?_, hgiven _ fun hnil => ?_, hne, hprefix, hlonger⟩
  · exact hne (by rw [hnil]; rfl)
  · rw [hnil] at hlonger
    exact absurd hlonger (Nat.not_lt_zero _)

/-- What the new text adds. -/
def appended (old new : Text) : Text := (strip new).drop (strip old).length

section

variable {raw : LLMSuggestionItem} {old new : Text} (h : Appends raw old new)

include h

/-- What was appended comes after the old text. -/
theorem Appends.strip_new : strip new = strip old ++ appended old new := by
  obtain ⟨tail, htail⟩ := h.extends_old
  rw [appended, ← htail, List.drop_left]

/-- It is not blank. -/
theorem Appends.appended_ne_nil : strip (appended old new) ≠ [] := by
  have hlength := congrArg List.length h.strip_new
  rw [List.length_append] at hlength
  have hlonger := h.longer
  have hne : appended old new ≠ [] := by
    rintro hnil
    rw [hnil, List.length_nil] at hlength
    omega
  have hnew : strip new ≠ [] := by
    rw [h.strip_new]
    exact List.append_ne_nil_of_right_ne_nil _ hne
  intro hblank
  have hall := (Strings.strip_eq_nil_iff isSpace _).mp hblank _ (List.getLast_mem hne)
  have hlast := Strings.getLast_strip isSpace (l := new) hnew
  have hgetLast : (strip new).getLast hnew = (appended old new).getLast hne := by
    simp only [h.strip_new, List.getLast_append_of_ne_nil _ hne]
  unfold strip at hgetLast
  rw [hgetLast, hall] at hlast
  cases hlast

/-- The mapper turns the item into an addition of the tail after the last paragraph. -/
theorem Appends.prepare_eq (text : Text) :
    SuggestionMapper.prepare text raw =
      ({ raw with
        changeType := "add", oldText := some (SuggestionMapper.lastParagraph (strip old))
        newText := some (strip (appended old new)), insertAfter := none }, false) := by
  have hstripped : strip (strip old) ≠ [] := by
    rw [show strip (strip old) = strip old from Strings.strip_strip isSpace old]
    exact h.old_ne_nil
  obtain ⟨hne, -⟩ := exists_line_of_lastParagraph hstripped
  have hnew : strip new ≠ [] := by
    rintro hnil
    have hlonger := h.longer
    rw [hnil, List.length_nil] at hlonger
    omega
  have hnormal : SuggestionMapper.normalize raw =
      { raw with
        changeType := "add", oldText := some [], newText := some (strip (appended old new))
        insertAfter := some (SuggestionMapper.lastParagraph (strip old)) } := by
    unfold SuggestionMapper.normalize
    simp only [h.changeType, h.oldText, h.newText, Option.getD_some, hnew, h.old_ne_nil, h.longer,
      h.extends_old, appended, ne_eq, not_true_eq_false, not_false_eq_true, and_false, and_self,
      if_true, if_false]
  unfold SuggestionMapper.prepare SuggestionMapper.resolveAnchor
  simp only [hnormal, SuggestionMapper.firstNonEmpty, Option.getD_some,
    strip_lastParagraph hstripped, ne_eq, not_true_eq_false, if_false, hne, not_false_eq_true,
    if_true]

/-- What the exporter is given. -/
theorem Appends.changeOf_eq (text : Text) :
    changeOf text raw .add =
      ⟨.add, some (SuggestionMapper.lastParagraph (strip old)), some (strip (appended old new))⟩ := by
  rw [changeOf, h.prepare_eq]

/-- **When the rewritten item exports the same text**, up to whitespace. The tail goes to the end
of the line of the last paragraph instead of to the end of the old text; what stands between must
commute with it. -/
theorem rewritten_modify_iff {nfc : Text → Text} (hnfc : ComposedForm nfc) {content : Text}
    {pre post pre' post' : Text} (hfixed : normalizeText nfc old = old)
    (hfirst : Strings.IsFirst (normalizeText nfc content) old pre post)
    (hpara : Strings.IsFirst (normalizeText nfc content)
      (SuggestionMapper.lastParagraph (strip old)) pre' post') :
    nonSpace (TextExporter.applyChanges nfc content
        [changeOf (normalizeText nfc content) raw .add]) =
      nonSpace (TextExporter.applyChanges nfc content [⟨.modify, raw.oldText, raw.newText⟩]) ↔
    nonSpace (appended old new) ++
        nonSpace (between (normalizeText nfc content) (pre ++ old).length
          (upTo pre' (SuggestionMapper.lastParagraph (strip old)) post').length) =
      nonSpace (between (normalizeText nfc content) (pre ++ old).length
          (upTo pre' (SuggestionMapper.lastParagraph (strip old)) post').length) ++
        nonSpace (appended old new) := by
  have hne : strip (strip old) ≠ [] := by
    rw [show strip (strip old) = strip old from Strings.strip_strip isSpace old]
    exact h.old_ne_nil
  obtain ⟨hparane, line, hline, hparaline⟩ := exists_line_of_lastParagraph hne
  -- the exporter looks for the last paragraph as it is
  have hanchor : exporterAnchor nfc (changeOf (normalizeText nfc content) raw .add) =
      SuggestionMapper.lastParagraph (strip old) := by
    have hpart : SuggestionMapper.lastParagraph (strip old) <:+: old := by
      have hwhole : line <:+: ['\n'].intercalate ((strip old).splitOn '\n') :=
        Strings.infix_intercalate_of_mem hline
      rw [List.intercalate_splitOn] at hwhole
      rw [hparaline]
      exact (Strings.strip_infix isSpace line).trans (hwhole.trans (Strings.strip_infix isSpace old))
    rw [h.changeOf_eq, exporterAnchor, Option.getD_some, hnfc.normalizeText_part hfixed hpart,
      hparaline]
    exact Strings.strip_strip isSpace line
  have hadd : nonSpace (TextExporter.applyChanges nfc content
      [changeOf (normalizeText nfc content) raw .add]) =
      nonSpace ((normalizeText nfc content).take
          (upTo pre' (SuggestionMapper.lastParagraph (strip old)) post').length) ++
        nonSpace (appended old new) ++
        nonSpace ((normalizeText nfc content).drop
          (upTo pre' (SuggestionMapper.lastParagraph (strip old)) post').length) := by
    have hplaced := TextExporter.nonSpace_placeAddition (hanchor ▸ hparane) (hanchor ▸ hpara)
    rw [hanchor, h.changeOf_eq, Option.getD_some, nonSpace_strip] at hplaced
    rw [← hplaced, h.changeOf_eq, TextExporter.applyChanges, List.foldl_cons, List.foldl_nil,
      TextExporter.applyChange]
    simp [h.appended_ne_nil]
  have hmodify : nonSpace (TextExporter.applyChanges nfc content
      [⟨.modify, raw.oldText, raw.newText⟩]) =
      nonSpace ((normalizeText nfc content).take (pre ++ old).length) ++
        nonSpace (appended old new) ++
        nonSpace ((normalizeText nfc content).drop (pre ++ old).length) := by
    have holdne : old ≠ [] := by
      rintro rfl
      exact h.old_ne_nil rfl
    have hnew : nonSpace new = nonSpace old ++ nonSpace (appended old new) := by
      rw [← nonSpace_strip new, h.strip_new, nonSpace_append, nonSpace_strip]
    have htext := hfirst.1
    rw [TextExporter.applyChanges, List.foldl_cons, List.foldl_nil, TextExporter.applyChange]
    simp only [h.oldText, h.newText, Option.getD_some, hfixed, if_neg holdne]
    rw [hfirst.replaceFirst_eq, nonSpace_append, nonSpace_append, hnew, htext, List.take_left,
      List.drop_left, nonSpace_append]
    simp only [List.append_assoc]
  rw [hadd, hmodify, eq_comm]
  exact nonSpace_insert_eq_iff _ _ _ _

end

/-! ## Inside a line and at its end -/

/-- An item of the model that repeats `old` and goes on. -/
def appendingItem (old new : Text) : LLMSuggestionItem where
  sectionRef := []
  changeType := "modify"
  oldText := some old
  newText := some new

/-- The old text ends with its line. -/
theorem same_export_at_line_end :
    nonSpace (TextExporter.applyChanges id "a\nb\nc".toList
        [changeOf "a\nb\nc".toList (appendingItem "a\nb".toList "a\nb d".toList) .add]) =
      nonSpace (TextExporter.applyChanges id "a\nb\nc".toList
        [⟨.modify, some "a\nb".toList, some "a\nb d".toList⟩]) :=
  (@rewritten_modify_iff (appendingItem "a\nb".toList "a\nb d".toList) _ _
      ⟨rfl, rfl, rfl, by decide, by decide, by decide⟩ id ComposedForm.id "a\nb\nc".toList
      [] "\nc".toList "a\n".toList "\nc".toList rfl
      (Strings.dropInfix?_eq_some_iff_isFirst.mp (by decide))
      (Strings.dropInfix?_eq_some_iff_isFirst.mp (by decide))).mpr (by decide)

/-- The old text ends inside a line, and the tail goes after the rest of the line. -/
theorem tail_after_rest_of_line :
    ¬ ∀ (nfc : Text → Text) (content : Text) (raw : LLMSuggestionItem) (old new : Text),
      ComposedForm nfc → normalizeText nfc content = content → Appends raw old new →
      normalizeText nfc old = old → normalizeText nfc new = new → old <:+: content →
      nonSpace (TextExporter.applyChanges nfc content
          [changeOf (normalizeText nfc content) raw .add]) =
        nonSpace (TextExporter.applyChanges nfc content [⟨.modify, raw.oldText, raw.newText⟩]) := by
  intro h
  have hexports := h id "abc OLD def".toList (appendingItem "OLD".toList "OLD new".toList) "OLD".toList
    "OLD new".toList ComposedForm.id rfl ⟨rfl, rfl, rfl, by decide, by decide, by decide⟩ rfl rfl
    (by decide)
  revert hexports
  decide +kernel

end SyncBack
