import SyncBack.Strings.Search

/-!
# Lines

The lines of a text are its pieces between the separators, the last one included, as
`text.split("\n")` gives them; `nonEmptyLines` leaves out the empty ones. The non-empty lines do not
see separators at either end of a text, and joining two texts with a separator appends them.
-/

set_option linter.unusedSectionVars false

namespace Strings

variable {α : Type} [DecidableEq α] (sep : α)

/-- The pieces of the text between separators that are not empty. -/
def nonEmptyLines (text : List α) : List (List α) := (text.splitOn sep).filter (· ≠ [])

/-- There is no line in an empty text. -/
theorem nonEmptyLines_nil : nonEmptyLines sep [] = [] := by
  simp [nonEmptyLines]

/-- Lines of two texts. -/
theorem nonEmptyLines_append_cons (a b : List α) :
    nonEmptyLines sep (a ++ sep :: b) = nonEmptyLines sep a ++ nonEmptyLines sep b := by
  rw [nonEmptyLines, List.splitOn_append_cons_self, List.filter_append]
  rfl

/-- A separator at the beginning makes no line. -/
theorem nonEmptyLines_cons (a : List α) : nonEmptyLines sep (sep :: a) = nonEmptyLines sep a := by
  rw [← List.nil_append (sep :: a), nonEmptyLines_append_cons, nonEmptyLines_nil, List.nil_append]

/-- Nor does one at the end. -/
theorem nonEmptyLines_concat (a : List α) :
    nonEmptyLines sep (a ++ [sep]) = nonEmptyLines sep a := by
  rw [nonEmptyLines_append_cons, nonEmptyLines_nil, List.append_nil]

/-- Nor do several at the beginning. -/
theorem nonEmptyLines_dropWhile (a : List α) :
    nonEmptyLines sep (a.dropWhile (· = sep)) = nonEmptyLines sep a := by
  induction a with
  | nil => rfl
  | cons c a ih =>
      by_cases hc : c = sep
      · rw [hc, List.dropWhile_cons_of_pos (by simp), ih, nonEmptyLines_cons]
      · rw [List.dropWhile_cons_of_neg (by simpa using hc)]

/-- Nor do several at the end. -/
theorem nonEmptyLines_rdropWhile (a : List α) :
    nonEmptyLines sep (a.rdropWhile (· = sep)) = nonEmptyLines sep a := by
  induction a using List.reverseRecOn with
  | nil => rfl
  | append_singleton a c ih =>
      by_cases hc : c = sep
      · rw [hc, List.rdropWhile_concat_pos _ _ _ (by simp), ih, nonEmptyLines_concat]
      · rw [List.rdropWhile_concat_neg _ _ _ (by simpa using hc)]

/-- The lines that were joined, without the empty ones. -/
theorem nonEmptyLines_intercalate :
    ∀ {lines : List (List α)}, (∀ line ∈ lines, sep ∉ line) →
      nonEmptyLines sep ([sep].intercalate lines) = lines.filter (· ≠ [])
  | [], _ => nonEmptyLines_nil sep
  | line :: rest, h => by
      rw [nonEmptyLines, List.splitOn_intercalate sep h (List.cons_ne_nil _ _)]

/-- Separators on both sides make no line. -/
theorem nonEmptyLines_strip (a : List α) :
    nonEmptyLines sep (strip (· = sep) a) = nonEmptyLines sep a := by
  rw [strip, nonEmptyLines_rdropWhile, nonEmptyLines_dropWhile]

/-- A piece holds no separator. -/
theorem not_mem_of_mem_splitOn {sep : α} {piece : List α} :
    ∀ {text : List α}, piece ∈ text.splitOn sep → sep ∉ piece
  | [], h => by simp_all
  | c :: rest, h => by
      rw [List.splitOn_cons_eq_if_modifyHead] at h
      by_cases hc : c = sep
      · simp only [hc, beq_self_eq_true, if_true, List.mem_cons] at h
        rcases h with rfl | h
        · simp
        · exact not_mem_of_mem_splitOn h
      · obtain ⟨first, others, hsplit⟩ := List.exists_cons_of_ne_nil (List.splitOn_ne_nil sep rest)
        have ih : ∀ p ∈ first :: others, sep ∉ p := by
          intro p hp
          rw [← hsplit] at hp
          exact not_mem_of_mem_splitOn hp
        simp only [beq_iff_eq, hc, if_false, hsplit, List.modifyHead_cons, List.mem_cons] at h
        rcases h with rfl | h
        · simpa [Ne.symm hc] using ih first List.mem_cons_self
        · exact ih piece (List.mem_cons_of_mem _ h)

/-! ## The first and the last line -/

/-- A text that does not start with the separator starts with a line that is not empty. -/
theorem head?_splitOn_of_head? {a : List α} {c : α} (hhead : a.head? = some c) (hc : c ≠ sep) :
    ∃ line, line ≠ [] ∧ (a.splitOn sep).head? = some line := by
  obtain ⟨rest, rfl⟩ := List.head?_eq_some_iff.mp hhead
  obtain ⟨first, others, hsplit⟩ := List.exists_cons_of_ne_nil (List.splitOn_ne_nil sep rest)
  exact ⟨c :: first, List.cons_ne_nil _ _, by
    rw [List.splitOn_cons_eq_if_modifyHead, if_neg (by simpa using hc), hsplit]
    rfl⟩

/-- A text that does not end with the separator ends with a line that is not empty. -/
theorem getLast?_splitOn_of_getLast? {c : α} (hc : c ≠ sep) :
    ∀ {a : List α}, a.getLast? = some c →
      ∃ line, line ≠ [] ∧ (a.splitOn sep).getLast? = some line
  | [d], h => by
      obtain rfl : d = c := by simpa using h
      exact ⟨[d], List.cons_ne_nil _ _, by
        rw [List.splitOn_eq_singleton (by simpa using hc.symm), List.getLast?_singleton]⟩
  | d :: e :: rest, h => by
      rw [List.getLast?_cons_cons] at h
      obtain ⟨line, hne, hline⟩ := getLast?_splitOn_of_getLast? hc h
      rw [List.splitOn_cons_eq_if_modifyHead]
      rcases hsplit : (e :: rest).splitOn sep with _ | ⟨first, _ | ⟨second, others⟩⟩
      · exact absurd hsplit (List.splitOn_ne_nil _ _)
      · rw [hsplit, List.getLast?_singleton, Option.some.injEq] at hline
        subst hline
        split
        · exact ⟨first, hne, rfl⟩
        · exact ⟨d :: first, List.cons_ne_nil _ _, rfl⟩
      · rw [hsplit, List.getLast?_cons_cons] at hline
        refine ⟨line, hne, ?_⟩
        split
        · rw [List.getLast?_cons_cons, List.getLast?_cons_cons, hline]
        · rw [List.modifyHead_cons, List.getLast?_cons_cons, hline]

/-- A stripped text that is not empty neither starts nor ends with the separator. -/
theorem lines_of_strip {a : List α} (h : strip (· = sep) a ≠ []) :
    (∃ line, line ≠ [] ∧ ((strip (· = sep) a).splitOn sep).head? = some line) ∧
      ∃ line, line ≠ [] ∧ ((strip (· = sep) a).splitOn sep).getLast? = some line := by
  constructor
  · exact head?_splitOn_of_head? sep (List.head?_eq_some_head h)
      (of_decide_eq_false (head_strip (fun c => decide (c = sep)) h))
  · exact getLast?_splitOn_of_getLast? sep
      (of_decide_eq_false (getLast_strip (fun c => decide (c = sep)) h))
      (List.getLast?_eq_some_getLast h)

/-- Joined lines, the first and the others. -/
theorem intercalate_cons (line : List α) (rest : List (List α)) :
    [sep].intercalate (line :: rest) = line ++ rest.flatMap (sep :: ·) := by
  induction rest generalizing line with
  | nil => simp
  | cons second rest ih =>
      rw [List.intercalate_cons_cons, ih, List.flatMap_cons, List.append_assoc]
      simp

/-- The same, when there are others. -/
theorem intercalate_cons_of_ne_nil (line : List α) {rest : List (List α)} (h : rest ≠ []) :
    [sep].intercalate (line :: rest) = line ++ sep :: [sep].intercalate rest := by
  obtain ⟨second, rest, rfl⟩ := List.exists_cons_of_ne_nil h
  rw [List.intercalate_cons_cons, List.append_assoc, List.singleton_append]

/-- Every line after a separator. -/
theorem nonEmptyLines_flatMap_cons (rest : List (List α)) :
    nonEmptyLines sep (rest.flatMap (sep :: ·)) = nonEmptyLines sep ([sep].intercalate rest) := by
  rcases rest with _ | ⟨first, rest⟩
  · simp [nonEmptyLines_nil]
  · rw [List.flatMap_cons, List.cons_append, nonEmptyLines_cons, intercalate_cons]

/-! ## The line of an occurrence -/

/-- The search for one separator. -/
theorem find_singleton (a : List α) :
    find a [sep] = if sep ∈ a then some (a.takeWhile (· ≠ sep)).length else none := by
  split
  · next h =>
    obtain ⟨pre, post, rfl, hpre⟩ := List.eq_append_cons_of_mem h
    have hfirst : IsFirst (pre ++ sep :: post) [sep] pre post := by
      refine ⟨by simp, fun l r heq => ?_⟩
      by_contra hlt
      have hmem : sep ∈ pre := by
        rw [List.append_assoc, List.singleton_append, List.append_eq_append_iff] at heq
        rcases heq with ⟨b, rfl, -⟩ | ⟨b, rfl, hb⟩
        · simp at hlt
        · rcases b with _ | ⟨d, b⟩
          · simp at hlt
          · rw [List.cons_append, List.cons.injEq] at hb
            simp [hb.1]
      exact hpre hmem
    rw [hfirst.find_eq, List.takeWhile_append_of_pos (fun c hc => by simpa using ne_of_mem_of_not_mem hc hpre)]
    simp
  · next h => rwa [find_eq_none_iff, List.singleton_infix_iff]

/-- What follows a line starts with the separator, or is empty. -/
theorem head?_flatMap_cons (rest : List (List α)) :
    (rest.flatMap (sep :: ·)).head?.all (· = sep) = true := by
  rcases rest with _ | ⟨first, rest⟩ <;> simp

/-- What comes after a line is nothing or begins with a separator. -/
theorem head?_dropWhile (a : List α) : (a.dropWhile (· ≠ sep)).head?.all (· = sep) = true := by
  induction a with
  | nil => rfl
  | cons c a ih =>
      by_cases hc : c = sep
      · simp [hc]
      · rwa [List.dropWhile_cons_of_pos (by simpa using hc)]

/-- A line is what stands before the first separator. -/
theorem span_line {a tail : List α} (ha : sep ∉ a) (htail : tail.head?.all (· = sep) = true) :
    (a ++ tail).takeWhile (· ≠ sep) = a ∧ (a ++ tail).dropWhile (· ≠ sep) = tail := by
  have hpos : ∀ c ∈ a, decide (c ≠ sep) = true := fun c hc => by
    simpa using ne_of_mem_of_not_mem hc ha
  rw [List.takeWhile_append_of_pos hpos, List.dropWhile_append_of_pos hpos]
  rcases tail with _ | ⟨c, tail⟩
  · simp
  · have hc : c = sep := by simpa using htail
    simp [hc]

/-- A line and what comes after it are told apart. -/
theorem line_append_inj {a b tail tail' : List α} (ha : sep ∉ a) (hb : sep ∉ b)
    (htail : tail.head?.all (· = sep) = true) (htail' : tail'.head?.all (· = sep) = true)
    (h : a ++ tail = b ++ tail') : a = b ∧ tail = tail' := by
  have hspan := span_line sep ha htail
  rw [h, (span_line sep hb htail').1, (span_line sep hb htail').2] at hspan
  exact ⟨hspan.1.symm, hspan.2.symm⟩

/-- The first occurrence of a fragment without the separator lies in the first line that holds the
fragment. -/
theorem exists_isFirst_of_lines {sub line : List α} (hne : sub ≠ []) (hsep : sep ∉ sub)
    (hline : sub <:+: line) (hlinesep : sep ∉ line) (below : List (List α)) :
    ∀ above : List (List α), (∀ l ∈ above, ¬ sub <:+: l) →
      ∃ pre post, IsFirst ([sep].intercalate (above ++ line :: below)) sub pre post ∧
        pre ++ sub ++ post.takeWhile (· ≠ sep) = [sep].intercalate (above ++ [line]) ∧
        post.dropWhile (· ≠ sep) = below.flatMap (sep :: ·)
  | [], _ => by
      obtain ⟨pre, post, rfl, hmin⟩ := exists_isFirst hline
      have hspan := span_line sep (a := post) (fun h => hlinesep (by simp [h]))
        (head?_flatMap_cons sep below)
      refine ⟨pre, post ++ below.flatMap (sep :: ·), ⟨?_, fun l r heq => ?_⟩, ?_, hspan.2⟩
      · rw [List.nil_append, intercalate_cons, List.append_assoc]
      · rcases below with _ | ⟨second, below⟩
        · exact hmin l r (by simpa using heq)
        · rw [List.nil_append, intercalate_cons_of_ne_nil sep _ (List.cons_ne_nil _ _)] at heq
          rcases occurrence_append_cons hne hsep heq with ⟨r', hin, -⟩ | ⟨l', rfl, -⟩
          · exact hmin l r' hin
          · simp only [List.length_append]
            omega
      · rw [hspan.1, List.nil_append, List.intercalate_singleton]
  | first :: above, h => by
      obtain ⟨pre, post, ⟨htext, hmin⟩, hupto, hfollowing⟩ :=
        exists_isFirst_of_lines hne hsep hline hlinesep below above
          fun l hl => h l (List.mem_cons_of_mem _ hl)
      have hcons : ∀ {rest : List (List α)}, rest ≠ [] →
          [sep].intercalate (first :: rest) = first ++ sep :: [sep].intercalate rest :=
        intercalate_cons_of_ne_nil sep first
      refine ⟨first ++ sep :: pre, post, ⟨?_, fun l r heq => ?_⟩, ?_, hfollowing⟩
      · rw [List.cons_append, hcons (by simp), htext]
        simp
      · rw [List.cons_append, hcons (by simp)] at heq
        rcases occurrence_append_cons hne hsep heq with ⟨r', hin, -⟩ | ⟨l', rfl, hin⟩
        · exact absurd ⟨l, r', hin.symm⟩ (h first List.mem_cons_self)
        · have hle := hmin l' r hin
          simp only [List.length_append, List.length_cons]
          omega
      · rw [List.cons_append, hcons (by simp), ← hupto]
        simp

end Strings
