import SyncBack.Infrastructure.Exporters
import SyncBack.Strings.Lines

/-!
# What an addition leaves alone

An addition goes after the line in which the first occurrence of its anchor ends. The text is cut
there (`upTo` and `following`), and `placeAddition_of_isFirst` gives the result in terms of the two
parts; on lines, the block stands between the non-empty lines of the two parts with one empty line
on each side (`addition_frame`).
-/

namespace SyncBack

/-- What an exporter looks for when it places an addition. -/
def exporterAnchor (nfc : Text → Text) (change : AppliedChange) : Text :=
  strip (normalizeText nfc (change.oldText.getD []))

/-- The text up to the end of the line in which an occurrence ends. -/
def upTo (pre anchor post : Text) : Text := pre ++ anchor ++ post.takeWhile (· ≠ '\n')

/-- The text after that line. -/
def following (post : Text) : Text := post.dropWhile (· ≠ '\n')

/-- The text is cut behind the line with the anchor. -/
theorem upTo_append_following (pre anchor post : Text) :
    upTo pre anchor post ++ following post = pre ++ anchor ++ post := by
  rw [upTo, following, List.append_assoc, List.takeWhile_append_dropWhile]

namespace TextExporter

/-- The line of the first anchor ends there. -/
theorem anchorLineEnd_of_isFirst {text anchor pre post : Text}
    (h : Strings.IsFirst text anchor pre post) :
    anchorLineEnd text anchor = some (upTo pre anchor post).length := by
  have htext := h.1
  have hdrop : text.drop (pre.length + anchor.length) = post := by
    rw [htext, ← List.length_append, List.drop_left]
  unfold anchorLineEnd
  simp only [h.find_eq, hdrop, Strings.find_singleton]
  split
  · next hnone =>
    have hpost : '\n' ∉ post := by simpa using hnone
    rw [upTo, List.takeWhile_eq_self_iff.mpr, htext]
    intro c hc
    simpa using ne_of_mem_of_not_mem hc hpost
  · next newline hsome =>
    split at hsome
    · rw [← Option.some.inj hsome, upTo, List.length_append, List.length_append]
    · cases hsome

/-- The block between the two parts of a text: one empty line before it, and one after it when the
second part is not blank. -/
theorem insertBlock_append (a b block : Text) (ha : a.rdropWhile (· = '\n') ≠ []) :
    insertBlock (a ++ b) a.length block =
      a.rdropWhile (· = '\n') ++ '\n' :: '\n' :: (block ++
        if b.dropWhile (· = '\n') = [] then ['\n']
        else '\n' :: '\n' :: b.dropWhile (· = '\n')) := by
  unfold insertBlock
  simp only [List.take_left', List.drop_left', if_neg ha]
  split <;> simp

/-- The block is inserted there. -/
theorem placeAddition_of_isFirst {nfc : Text → Text} {text pre post : Text}
    {change : AppliedChange} (hne : exporterAnchor nfc change ≠ [])
    (h : Strings.IsFirst text (exporterAnchor nfc change) pre post) :
    placeAddition nfc text change =
      insertBlock (upTo pre (exporterAnchor nfc change) post ++ following post)
        (upTo pre (exporterAnchor nfc change) post).length (block change) := by
  unfold placeAddition
  unfold exporterAnchor at hne h ⊢
  simp only [if_neg hne, anchorLineEnd_of_isFirst h]
  rw [upTo_append_following, ← h.1]

/-- Without the anchor nothing is inserted. -/
theorem placeAddition_of_not_infix {nfc : Text → Text} {text : Text} {change : AppliedChange}
    (h : ¬ exporterAnchor nfc change <:+: text) : placeAddition nfc text change = text := by
  unfold placeAddition
  unfold exporterAnchor at h
  have hnone : anchorLineEnd text (strip (normalizeText nfc (change.oldText.getD []))) = none := by
    rw [anchorLineEnd, Strings.find_eq_none_iff.mpr h]
  simp only [hnone, ite_self]

end TextExporter

/-! ## Non-empty lines -/

/-- The first line is not empty. -/
def StartsInText (lines : List Text) : Prop := ∃ line, line ≠ [] ∧ lines.head? = some line

/-- The last line is not empty. -/
def EndsInText (lines : List Text) : Prop := ∃ line, line ≠ [] ∧ lines.getLast? = some line

/-- On lines, `result` is the block between two parts of a text: their non-empty lines are kept in
order, with one empty line before the block, and one after it when a non-empty line follows. -/
structure BlockBetween (result before block after : Text) : Prop where
  nonEmptyLines : Strings.nonEmptyLines '\n' result =
    Strings.nonEmptyLines '\n' before ++ Strings.nonEmptyLines '\n' block ++
      Strings.nonEmptyLines '\n' after
  oneEmptyLine : ∃ above inner below, result.splitOn '\n' = above ++ [] :: inner ++ below ∧
    above.filter (· ≠ []) = Strings.nonEmptyLines '\n' before ∧
    inner.filter (· ≠ []) = Strings.nonEmptyLines '\n' block ∧
    below.filter (· ≠ []) = Strings.nonEmptyLines '\n' after ∧
    EndsInText above ∧ StartsInText inner ∧ EndsInText inner ∧
    if Strings.nonEmptyLines '\n' after = [] then below = [[]]
    else ∃ rest, below = [] :: rest ∧ StartsInText rest

/-- An empty line cuts the lines. -/
theorem splitOn_between (head rest : Text) :
    (head ++ '\n' :: '\n' :: rest).splitOn '\n' = head.splitOn '\n' ++ [] :: rest.splitOn '\n' := by
  rw [List.splitOn_append_cons_self, ← List.nil_append ('\n' :: rest),
    List.splitOn_append_cons_self, List.splitOn_nil, List.singleton_append]

/-- A block with text has a line. -/
theorem nonEmptyLines_ne_nil {lines : List Text} (h : StartsInText lines) :
    lines.filter (· ≠ []) ≠ [] := by
  obtain ⟨line, hne, hhead⟩ := h
  obtain ⟨rest, rfl⟩ := List.head?_eq_some_iff.mp hhead
  rw [List.filter_cons_of_pos (by simpa using hne)]
  exact List.cons_ne_nil _ _

/-- The trimmed parts with the line feeds that `_insert_block` puts between them. -/
theorem blockBetween_insertBlock {a b new : Text} (ha : ∃ c ∈ a, c ≠ '\n')
    (hnew : ∃ c ∈ new, c ≠ '\n') :
    BlockBetween (TextExporter.insertBlock (a ++ b) a.length (Strings.strip (· = '\n') new))
      a new b := by
  have hhead : a.rdropWhile (· = '\n') ≠ [] := by
    rw [ne_eq, List.rdropWhile_eq_nil_iff]
    obtain ⟨c, hc, hne⟩ := ha
    exact fun h => hne (of_decide_eq_true (h c hc))
  have hblock : Strings.strip (· = '\n') new ≠ [] := by
    rw [ne_eq, Strings.strip_eq_nil_iff]
    obtain ⟨c, hc, hne⟩ := hnew
    exact fun h => hne (of_decide_eq_true (h c hc))
  have habove : EndsInText ((a.rdropWhile (· = '\n')).splitOn '\n') := by
    have hlast := List.rdropWhile_last_not _ _ hhead
    exact Strings.getLast?_splitOn_of_getLast? '\n' (fun h => hlast (decide_eq_true h))
      (List.getLast?_eq_some_getLast hhead)
  have hlines := Strings.lines_of_strip '\n' hblock
  have hfilter : ∀ text : Text, (text.splitOn '\n').filter (· ≠ []) =
      Strings.nonEmptyLines '\n' text := fun _ => rfl
  rw [TextExporter.insertBlock_append a b _ hhead]
  split
  · next htail =>
    have hafter : Strings.nonEmptyLines '\n' b = [] := by
      rw [← Strings.nonEmptyLines_dropWhile, htail, Strings.nonEmptyLines_nil]
    refine ⟨?_, _, _, [[]], ?_, ?_, ?_, ?_, habove, hlines.1, hlines.2, ?_⟩
    · rw [Strings.nonEmptyLines_append_cons, Strings.nonEmptyLines_cons,
        Strings.nonEmptyLines_concat, Strings.nonEmptyLines_rdropWhile, Strings.nonEmptyLines_strip,
        hafter, List.append_nil]
    · rw [splitOn_between, List.splitOn_append_cons_self, List.splitOn_nil, List.append_assoc,
        List.cons_append]
    · rw [hfilter, Strings.nonEmptyLines_rdropWhile]
    · rw [hfilter, Strings.nonEmptyLines_strip]
    · rw [hafter]
      rfl
    · rw [if_pos hafter]
  · next htail =>
    obtain ⟨c, tail, hcons⟩ := List.exists_cons_of_ne_nil htail
    have hc : c ≠ '\n' := by
      have hne := List.head_dropWhile_not (p := fun x : Char => decide (x = '\n')) (l := b) htail
      simpa [hcons] using hne
    have hbelow : StartsInText ((b.dropWhile (· = '\n')).splitOn '\n') :=
      Strings.head?_splitOn_of_head? '\n' (c := c) (by rw [hcons, List.head?_cons]) hc
    have hafter : Strings.nonEmptyLines '\n' b ≠ [] := by
      rw [← Strings.nonEmptyLines_dropWhile, ← hfilter]
      exact nonEmptyLines_ne_nil hbelow
    refine ⟨?_, _, _, [] :: (b.dropWhile (· = '\n')).splitOn '\n', ?_, ?_, ?_, ?_, habove,
      hlines.1, hlines.2, ?_⟩
    · rw [Strings.nonEmptyLines_append_cons, Strings.nonEmptyLines_cons,
        Strings.nonEmptyLines_append_cons, Strings.nonEmptyLines_cons,
        Strings.nonEmptyLines_rdropWhile, Strings.nonEmptyLines_strip,
        Strings.nonEmptyLines_dropWhile, List.append_assoc]
    · rw [splitOn_between, splitOn_between, List.append_assoc, List.cons_append]
    · rw [hfilter, Strings.nonEmptyLines_rdropWhile]
    · rw [hfilter, Strings.nonEmptyLines_strip]
    · rw [List.filter_cons_of_neg (by simp), hfilter, Strings.nonEmptyLines_dropWhile]
    · rw [if_neg hafter]
      exact ⟨_, rfl, hbelow⟩

/-- A stripped anchor that is not empty is not made of line feeds. -/
theorem exists_ne_newline_of_strip {text : Text} (h : strip text ≠ []) :
    ∃ c ∈ strip text, c ≠ '\n' := by
  refine ⟨_, List.getLast_mem h, ?_⟩
  rintro hnewline
  have hspace := Strings.getLast_strip isSpace h
  unfold strip at hnewline
  rw [hnewline] at hspace
  cases hspace

/-- The block stands between what was there before. -/
theorem blockBetween_placeAddition {nfc : Text → Text} {text pre post : Text}
    {change : AppliedChange} (hanchor : exporterAnchor nfc change ≠ [])
    (hblock : ∃ c ∈ change.newText.getD [], c ≠ '\n')
    (hfirst : Strings.IsFirst text (exporterAnchor nfc change) pre post) :
    BlockBetween (TextExporter.placeAddition nfc text change)
      (upTo pre (exporterAnchor nfc change) post) (change.newText.getD []) (following post) := by
  rw [TextExporter.placeAddition_of_isFirst hanchor hfirst]
  refine blockBetween_insertBlock ?_ hblock
  obtain ⟨c, hc, hne⟩ := exists_ne_newline_of_strip hanchor
  exact ⟨c, by simp [upTo, exporterAnchor, hc], hne⟩

/-- **The frame of an addition.** The block goes after the line in which the first occurrence of
the anchor ends; every other non-empty line stays where it was. -/
theorem addition_frame {nfc : Text → Text} {text : Text} {change : AppliedChange}
    (hanchor : exporterAnchor nfc change ≠ []) (hblock : ∃ c ∈ change.newText.getD [], c ≠ '\n') :
    (∀ pre post, Strings.IsFirst text (exporterAnchor nfc change) pre post →
      BlockBetween (TextExporter.placeAddition nfc text change)
        (upTo pre (exporterAnchor nfc change) post) (change.newText.getD []) (following post)) ∧
    (¬ exporterAnchor nfc change <:+: text → TextExporter.placeAddition nfc text change = text) :=
  ⟨fun _ _ hfirst => blockBetween_placeAddition hanchor hblock hfirst,
    TextExporter.placeAddition_of_not_infix⟩

/-- A paragraph between two lines. -/
theorem paragraph_added :
    BlockBetween (TextExporter.placeAddition id "a b\n\nc".toList
        { changeType := .add, oldText := some "a".toList, newText := some "x\n".toList })
      "a b".toList "x\n".toList "\n\nc".toList :=
  (@addition_frame id _ { changeType := .add, oldText := some "a".toList, newText := some "x\n".toList }
    (by decide) ⟨'x', by decide, by decide⟩).1 [] " b\n\nc".toList
    ⟨rfl, fun _ _ _ => Nat.zero_le _⟩

end SyncBack
