import SyncBack.Infrastructure.MarkdownParser
import SyncBack.Strings.Lines

/-!
# The headings that the Markdown parser finds

The whitespace of the expression also matches line feeds. On a line with a heading that makes no
difference: every way to match it takes that line (`exists_match_of_heading`). A line of marks and
whitespace alone is different: the whitespace goes on over the end of the line, and the next line
with a text is taken for the text of the heading, unless the text ends before
(`matchAt_eq_none_iff_of_no_heading`). The search is followed line by line (`finditer_lines_iff`).
-/

namespace SyncBack

open Strings (Regex Match)

namespace MarkdownParser

/-- What the expression takes: marks, whitespace that may go over line ends, and the rest of a
line. -/
theorem accepts_headingRe_iff {isWord : Char → Bool} {prev : Option Char} {taken rest : Text}
    {groups : List (ℕ × Text)} :
    headingRe.Accepts isWord prev taken rest groups ↔
      prev.all (· = '\n') = true ∧ ∃ marks c blank body,
        taken = marks ++ c :: (blank ++ body) ∧
        (∀ d ∈ marks, d = '#') ∧ 1 ≤ marks.length ∧ marks.length ≤ 6 ∧
        isSpace c = true ∧ (∀ d ∈ blank, isSpace d = true) ∧
        body ≠ [] ∧ '\n' ∉ body ∧ rest.head?.all (· = '\n') = true ∧
        groups = [(2, body), (1, marks)] := by
  unfold headingRe
  constructor
  · intro h
    obtain ⟨hstart, hgroup⟩ := Regex.accepts_assert_seq_iff.mp h
    obtain ⟨marks, _, _, _, hmarks, hspace, rfl, rfl⟩ := Regex.accepts_group_seq_iff.mp hgroup
    obtain ⟨hall, h₁, h₂, rfl⟩ := (Regex.accepts_oneUpTo_iff 5).mp hmarks
    obtain ⟨c, _, hc, hspaces, rfl⟩ := Regex.accepts_one_seq_iff.mp hspace
    obtain ⟨blank, _, hblank, htext, rfl⟩ := Regex.accepts_many_seq_iff.mp hspaces
    obtain ⟨body, _, _, _, hbody, ⟨hend, rfl, rfl⟩, rfl, rfl⟩ :=
      Regex.accepts_group_seq_iff.mp htext
    obtain ⟨d, body, hd, ⟨hrest, rfl⟩, rfl⟩ := Regex.accepts_one_seq_iff.mp hbody
    refine ⟨hstart, marks, c, blank, d :: body, by simp, fun e he => by simpa using hall e he, h₁, h₂,
      hc, hblank, List.cons_ne_nil _ _, ?_, hend, rfl⟩
    rw [List.mem_cons, not_or]
    exact ⟨fun heq => by simp [notNewline, ← heq] at hd, fun hmem => by
      simpa [notNewline] using hrest _ hmem⟩
  · rintro ⟨hstart, marks, c, blank, body, rfl, hall, h₁, h₂, hc, hblank, hne, hbody, hend, rfl⟩
    obtain ⟨d, body, rfl⟩ := List.exists_cons_of_ne_nil hne
    have hnewline : ∀ e ∈ d :: body, notNewline e = true := fun e he => by
      simpa [notNewline] using ne_of_mem_of_not_mem he hbody
    refine Regex.accepts_assert_seq_iff.mpr ⟨hstart, Regex.accepts_group_seq_iff.mpr
      ⟨marks, c :: (blank ++ (d :: body)), [], [(2, d :: body)],
        (Regex.accepts_oneUpTo_iff 5).mpr ⟨fun e he => by simpa using hall e he, h₁, h₂, rfl⟩,
        Regex.accepts_one_seq_iff.mpr ⟨c, _, hc, Regex.accepts_many_seq_iff.mpr
          ⟨blank, _, hblank, Regex.accepts_group_seq_iff.mpr ⟨d :: body, [], [], [],
            Regex.accepts_one_seq_iff.mpr ⟨d, body, hnewline d List.mem_cons_self,
              ⟨fun e he => hnewline e (List.mem_cons_of_mem _ he), rfl⟩, rfl⟩,
            ⟨hend, rfl, rfl⟩, (List.append_nil _).symm, rfl⟩, rfl⟩, rfl⟩, rfl, rfl⟩⟩

/-! ## A match at the start of a line -/

/-- What may follow a bare line so that the expression does not take it for a heading: at most one
character, and line feeds. -/
def Harmless (rest : Text) : Prop := ∀ c ∈ rest.tail, c = '\n'

variable {isWord : Char → Bool} {prev : Option Char} {line tail : Text}

/-- The marks at the start of a text are those of its first line. -/
theorem marks_append (htail : tail.head?.all (· = '\n') = true) :
    (line ++ tail).takeWhile (· = '#') = line.takeWhile (· = '#') ∧
      (line ++ tail).dropWhile (· = '#') = afterMarks line ++ tail := by
  unfold afterMarks
  induction line with
  | nil =>
      rcases tail with _ | ⟨c, tail⟩
      · simp
      · obtain rfl : c = '\n' := by simpa using htail
        simp
  | cons c line ih =>
      by_cases hc : c = '#'
      · simp [hc, ih]
      · simp [hc]

/-- The marks of a match are those of the line. -/
theorem accepts_at_line {taken rest : Text} {groups : List (ℕ × Text)}
    (h : headingRe.Accepts isWord prev taken rest groups)
    (htail : tail.head?.all (· = '\n') = true) (htext : line ++ tail = taken ++ rest) :
    HasMarks line ∧ ∃ c blank body, afterMarks line ++ tail = c :: (blank ++ (body ++ rest)) ∧
      taken = line.takeWhile (· = '#') ++ c :: (blank ++ body) ∧ isSpace c = true ∧
      (∀ d ∈ blank, isSpace d = true) ∧ body ≠ [] ∧ '\n' ∉ body ∧
      rest.head?.all (· = '\n') = true ∧ groups.lookup 2 = some body := by
  obtain ⟨-, marks, c, blank, body, rfl, hall, h₁, h₂, hc, hblank, hne, hbody, hend, rfl⟩ :=
    accepts_headingRe_iff.mp h
  have hmark : c ≠ '#' := by
    rintro rfl
    cases hc
  have hpos : ∀ d ∈ marks, decide (d = '#') = true := fun d hd => by simpa using hall d hd
  have hmarks := @marks_append line _ htail
  rw [htext, List.append_assoc, List.takeWhile_append_of_pos hpos, List.dropWhile_append_of_pos hpos,
    List.cons_append, List.takeWhile_cons_of_neg (by simpa using hmark),
    List.dropWhile_cons_of_neg (by simpa using hmark), List.append_nil, List.append_assoc] at hmarks
  obtain ⟨rfl, hafter⟩ := hmarks
  exact ⟨⟨h₁, h₂⟩, c, blank, body, hafter.symm, rfl, hc, hblank, hne, hbody, hend, rfl⟩

/-- The expression takes a heading line, and no more than that line. -/
theorem exists_match_of_heading {ref : Text} (hline : '\n' ∉ line)
    (htail : tail.head?.all (· = '\n') = true) (hprev : prev.all (· = '\n') = true)
    (href : headingOf line = some ref) :
    ∃ m, headingRe.matchAt isWord prev (line ++ tail) = some m ∧ m.text = line ∧ m.rest = tail ∧
      strip (m.group 2) = ref := by
  unfold headingOf at href
  split at href
  case isFalse => cases href
  next h =>
  obtain ⟨hmarks, hspace, hstrip⟩ := h
  obtain rfl := Option.some.inj href
  obtain ⟨c, text, hafter⟩ := List.exists_cons_of_ne_nil
    (fun h0 => hstrip (by rw [h0]; rfl) : afterMarks line ≠ [])
  have hc : isSpace c = true := by simpa [hafter] using hspace
  have hafternl : '\n' ∉ afterMarks line := fun h0 => hline ((List.dropWhile_sublist _).subset h0)
  have hsplit : line = line.takeWhile (· = '#') ++ c :: text := by
    rw [← hafter, afterMarks, List.takeWhile_append_dropWhile]
  have hstriptext : strip (c :: text) = strip text :=
    @Strings.strip_append_of_all _ _ isSpace text [c] (by simpa using hc)
  have htext : text ≠ [] := by
    rintro rfl
    rw [hafter, hstriptext] at hstrip
    exact hstrip rfl
  -- the line itself is accepted, so the matcher finds something
  have hsome : headingRe.matchAt isWord prev (line ++ tail) ≠ none := by
    intro hnone
    refine Regex.matchAt_eq_none_iff.mp hnone line tail _ rfl (accepts_headingRe_iff.mpr
      ⟨hprev, line.takeWhile (· = '#'), c, [], text, by simpa using hsplit,
        fun d hd => by simpa using List.mem_takeWhile_imp hd, hmarks.1, hmarks.2, hc,
        (fun _ h => nomatch h), htext, fun h0 => hafternl (hafter ▸ List.mem_cons_of_mem _ h0), htail,
        rfl⟩)
  obtain ⟨m, hm⟩ := Option.ne_none_iff_exists'.mp hsome
  obtain ⟨heq, haccepts⟩ := Regex.accepts_of_matchAt hm
  obtain ⟨-, c', blank, body, hafter', htaken, hc', hblank, hne, hbody, hend, hgroup⟩ :=
    accepts_at_line haccepts htail heq
  -- the whitespace of the match ends before the text of the line does
  have hblanknl : '\n' ∉ c' :: blank := by
    rw [← List.cons_append, List.append_eq_append_iff] at hafter'
    rcases hafter' with ⟨extra, hextra, -⟩ | ⟨extra, hextra, -⟩
    · refine absurd ((Strings.strip_eq_nil_iff isSpace _).mpr fun d hd => ?_) hstrip
      have hmem : d ∈ c' :: blank := hextra ▸ List.mem_append_left _ hd
      rcases List.mem_cons.mp hmem with rfl | hmem
      · exact hc'
      · exact hblank d hmem
    · exact fun h0 => hafternl (hextra ▸ List.mem_append_left _ h0)
  have hbodynl : '\n' ∉ c' :: (blank ++ body) := by
    rw [List.mem_cons, List.mem_append, ← or_assoc, ← List.mem_cons, not_or]
    exact ⟨hblanknl, hbody⟩
  have hline' : afterMarks line ++ tail = c' :: (blank ++ body) ++ m.rest := by simpa using hafter'
  obtain ⟨hcontent, hrest⟩ := Strings.line_append_inj '\n' hafternl hbodynl htail hend hline'
  refine ⟨m, hm, ?_, hrest.symm, ?_⟩
  · rw [htaken, ← hcontent, afterMarks, List.takeWhile_append_dropWhile]
  · have hpre : ∀ d ∈ c' :: blank, isSpace d = true := List.forall_mem_cons.mpr ⟨hc', hblank⟩
    rw [Match.group, hgroup, Option.getD_some, hcontent, ← List.cons_append]
    exact (Strings.strip_append_of_all isSpace hpre).symm

/-- Where the expression finds nothing at the start of a line without a heading. -/
theorem matchAt_eq_none_iff_of_no_heading (hline : '\n' ∉ line)
    (htail : tail.head?.all (· = '\n') = true) (hprev : prev.all (· = '\n') = true)
    (hnone : headingOf line = none) :
    headingRe.matchAt isWord prev (line ++ tail) = none ↔
      (IsBare line → Harmless (afterMarks line ++ tail)) := by
  have hafternl : '\n' ∉ afterMarks line := fun h0 => hline ((List.dropWhile_sublist _).subset h0)
  constructor
  · rintro hmatch ⟨hmarks, hblank⟩ d hd
    by_contra hne
    -- the whitespace up to the first line with another character belongs to the match
    have hafterne : afterMarks line ++ tail ≠ [] := by
      intro h0
      rw [h0] at hd
      cases hd
    obtain ⟨c, rest, hcons⟩ := List.exists_cons_of_ne_nil hafterne
    rw [hcons, List.tail_cons] at hd
    have hc : isSpace c = true := by
      rcases hafter : afterMarks line with _ | ⟨e, text⟩
      · rw [hafter, List.nil_append] at hcons
        obtain rfl : c = '\n' := by simpa [hcons] using htail
        rfl
      · rw [hafter, List.cons_append, List.cons.injEq] at hcons
        exact hcons.1 ▸ hblank e (hafter ▸ List.mem_cons_self)
    have htextne : rest.dropWhile (· = '\n') ≠ [] := by
      rw [ne_eq, List.dropWhile_eq_nil_iff]
      exact fun hall => hne (of_decide_eq_true (hall d hd))
    obtain ⟨e, text, htext⟩ := List.exists_cons_of_ne_nil htextne
    have he : e ≠ '\n' := by
      have hhead := List.head_dropWhile_not (p := fun x : Char => decide (x = '\n')) (l := rest) htextne
      simpa [htext] using hhead
    have hrest : rest = rest.takeWhile (· = '\n') ++
        ((e :: text).takeWhile (· ≠ '\n') ++ (e :: text).dropWhile (· ≠ '\n')) := by
      rw [List.takeWhile_append_dropWhile, ← htext, List.takeWhile_append_dropWhile]
    refine Regex.matchAt_eq_none_iff.mp hmatch
      (line.takeWhile (· = '#') ++ c :: (rest.takeWhile (· = '\n') ++ (e :: text).takeWhile (· ≠ '\n')))
      ((e :: text).dropWhile (· ≠ '\n')) _ ?_ (accepts_headingRe_iff.mpr
        ⟨hprev, line.takeWhile (· = '#'), c, rest.takeWhile (· = '\n'),
          (e :: text).takeWhile (· ≠ '\n'), rfl, fun x hx => by simpa using List.mem_takeWhile_imp hx,
          hmarks.1, hmarks.2, hc, fun x hx => ?_, ?_, ?_, ?_, rfl⟩)
    · have hline' : line ++ tail = line.takeWhile (· = '#') ++ (afterMarks line ++ tail) := by
        rw [← List.append_assoc, afterMarks, List.takeWhile_append_dropWhile]
      rw [hline', hcons, List.append_assoc, List.cons_append, List.append_assoc, ← hrest]
    · obtain rfl : x = '\n' := by simpa using List.mem_takeWhile_imp hx
      rfl
    · rw [List.takeWhile_cons_of_pos (by simpa using he)]
      exact List.cons_ne_nil _ _
    · exact fun h0 => by simpa using List.mem_takeWhile_imp h0
    · exact Strings.head?_dropWhile '\n' _
  · intro hharmless
    refine Regex.matchAt_eq_none_iff.mpr fun taken rest groups heq haccepts => ?_
    obtain ⟨hmarks, c, blank, body, hafter, -, hc, hblank, hne, hbody, hend, -⟩ :=
      accepts_at_line haccepts htail heq
    have hbare : IsBare line := by
      refine ⟨hmarks, ?_⟩
      rw [← List.cons_append, List.append_eq_append_iff] at hafter
      rcases hafter with ⟨extra, hextra, -⟩ | ⟨extra, hextra, hbodyrest⟩
      · intro d hd
        have hmem : d ∈ c :: blank := hextra ▸ List.mem_append_left _ hd
        rcases List.mem_cons.mp hmem with rfl | hmem
        · exact hc
        · exact hblank d hmem
      · -- the match ends on the line, which has no text
        rw [← Strings.strip_eq_nil_iff]
        by_contra hstrip
        have hhead : (afterMarks line).head?.any isSpace = true := by simp [hextra, hc]
        unfold headingOf at hnone
        rw [if_pos ⟨hmarks, hhead, hstrip⟩] at hnone
        cases hnone
    have hrest := hharmless hbare
    rw [hafter] at hrest
    obtain ⟨d, body, rfl⟩ := List.exists_cons_of_ne_nil hne
    have hd : d = '\n' := hrest d (by simp)
    exact hbody (hd ▸ List.mem_cons_self)

/-! ## The search, line by line -/

/-- A match begins at the start of a line. -/
theorem matchAt_eq_none_of_prev {text : Text} (hprev : prev.all (· = '\n') = false) :
    headingRe.matchAt isWord prev text = none := by
  refine Regex.matchAt_eq_none_iff.mpr fun taken rest groups _ haccepts => ?_
  rw [(accepts_headingRe_iff.mp haccepts).1] at hprev
  cases hprev

/-- A match begins with a mark. -/
theorem matchAt_newline (text : Text) : headingRe.matchAt isWord prev ('\n' :: text) = none := by
  refine Regex.matchAt_eq_none_iff.mpr fun taken rest groups heq haccepts => ?_
  obtain ⟨-, marks, c, blank, body, rfl, hall, h₁, -⟩ := accepts_headingRe_iff.mp haccepts
  obtain ⟨d, marks, rfl⟩ := List.exists_cons_of_length_pos h₁
  obtain rfl : '\n' = d := (List.cons.inj heq).1
  exact absurd (hall '\n' List.mem_cons_self) (by decide)

/-- A heading has text. -/
theorem text_ne_nil_of_matchAt {text : Text} {m : Match Char}
    (h : headingRe.matchAt isWord prev text = some m) : m.text ≠ [] := by
  obtain ⟨-, marks, c, blank, body, htext, -⟩ :=
    accepts_headingRe_iff.mp (Regex.accepts_of_matchAt h).2
  simp [htext]

/-- No match begins inside a line. -/
theorem finditerFrom_line (hline : '\n' ∉ line)
    (hnone : headingRe.matchAt isWord prev (line ++ tail) = none) (i : ℕ) :
    headingRe.finditerFrom isWord i prev 0 (line ++ tail) =
      headingRe.finditerFrom isWord (i + line.length) (Strings.lastOr prev line) 0 tail := by
  refine Regex.finditerFrom_append line tail fun before c after hsplit => ?_
  rcases List.eq_nil_or_concat before with rfl | ⟨init, last, rfl⟩
  · rwa [Strings.lastOr_nil, ← List.nil_append (c :: after), ← hsplit]
  · refine matchAt_eq_none_of_prev ?_
    have hlast : last ≠ '\n' := by
      rintro rfl
      exact hline (by simp [hsplit])
    simpa [Strings.lastOr] using hlast

/-- After a line the search goes on at the start of the next one. -/
theorem finditerFrom_tail (i : ℕ) (below : List Text) :
    headingRe.finditerFrom isWord i prev 0 (below.flatMap ('\n' :: ·)) =
      headingRe.finditerFrom isWord (i + 1) (some '\n') 0 (['\n'].intercalate below) := by
  rcases below with _ | ⟨first, below⟩
  · simp [Regex.finditerFrom]
  · rw [Strings.intercalate_cons, List.flatMap_cons, List.cons_append, Regex.finditerFrom,
      matchAt_newline]

/-- The lines of headings are counted on, by induction on them. -/
theorem le_of_mem_headingsFrom {x : ℕ × Text} :
    ∀ {lines : List Text} {i : ℕ}, x ∈ headingsFrom i lines → i ≤ x.1
  | [], _, h => nomatch h
  | line :: rest, i, h => by
      rw [headingsFrom, List.mem_append, Option.mem_toList] at h
      rcases h with h | h
      · obtain ⟨ref, -, rfl⟩ := Option.mem_map.mp h
        exact le_refl i
      · have := le_of_mem_headingsFrom h
        omega

/-- A bare line is no heading of its own. -/
theorem headingOf_eq_none_of_isBare (h : IsBare line) : headingOf line = none := by
  have hstrip : strip (afterMarks line) = [] := (Strings.strip_eq_nil_iff isSpace _).mpr h.2
  rw [headingOf, if_neg fun hn => hn.2.2 hstrip]

/-- Each line of marks and whitespace is followed, to the end of the text, by nothing that the
expression takes for its text. -/
def BareLinesHarmless (lines : List Text) : Prop :=
  ∀ above line below, lines = above ++ line :: below → IsBare line →
    Harmless (afterMarks line ++ below.flatMap ('\n' :: ·))

/-- One line more. -/
theorem bareLinesHarmless_cons {below : List Text} :
    BareLinesHarmless (line :: below) ↔
      (IsBare line → Harmless (afterMarks line ++ below.flatMap ('\n' :: ·))) ∧
        BareLinesHarmless below := by
  constructor
  · intro h
    refine ⟨h [] line below rfl, fun above line' below' heq => h (line :: above) line' below' ?_⟩
    rw [heq, List.cons_append]
  · rintro ⟨hline, hbelow⟩ (_ | ⟨first, above⟩) line' below' heq
    · obtain ⟨rfl, rfl⟩ := List.cons.inj heq
      exact hline
    · exact hbelow above line' below' (List.cons.inj heq).2

/-- What a match says of a section. -/
def sectionStart (m : ℕ × Match Char) : ℕ × Text := (m.1, strip (m.2.group 2))

/-- The matches are the heading lines iff every bare line is harmless. -/
theorem finditer_lines_iff {isWord : Char → Bool} (lines : List Text) :
    ∀ (i : ℕ) (prev : Option Char), (∀ line ∈ lines, '\n' ∉ line) → prev.all (· = '\n') = true →
      ((headingRe.finditerFrom isWord i prev 0 (['\n'].intercalate lines)).map sectionStart =
        headingsFrom i lines ↔ BareLinesHarmless lines) := by
  induction lines with
  | nil =>
      intro i prev _ _
      refine iff_of_true rfl ?_
      rintro above line below heq
      simp at heq
  | cons line below ih =>
      intro i prev hlines hprev
      have hline := hlines line List.mem_cons_self
      have htail := Strings.head?_flatMap_cons '\n' below
      have hbelow := ih (i + line.length + 1) (some '\n')
        (fun l hl => hlines l (List.mem_cons_of_mem _ hl)) rfl
      rw [Strings.intercalate_cons, headingsFrom, bareLinesHarmless_cons]
      cases href : headingOf line with
      | some ref =>
          obtain ⟨m, hm, htext, hrest, hgroup⟩ := exists_match_of_heading hline htail hprev href
          have hbare : ¬ IsBare line := fun h => by
            rw [headingOf_eq_none_of_isBare h] at href
            cases href
          rw [Regex.finditerFrom_of_match hm (text_ne_nil_of_matchAt hm), htext, hrest,
            finditerFrom_tail, List.map_cons, Option.map_some, Option.toList_some,
            List.singleton_append, List.cons.injEq, hbelow]
          simp [sectionStart, hgroup, hbare]
      | none =>
          have hmatch := @matchAt_eq_none_iff_of_no_heading isWord _ _ _ hline htail hprev href
          rw [Option.map_none, Option.toList_none, List.nil_append]
          cases hm : headingRe.matchAt isWord prev (line ++ below.flatMap ('\n' :: ·)) with
          | none =>
              rw [finditerFrom_line hline hm, finditerFrom_tail, hbelow, and_iff_right (hmatch.mp hm)]
          | some m =>
              refine iff_of_false (fun heq => ?_) fun h => ?_
              · -- a section would start at a line without a heading
                rw [Regex.finditerFrom_of_match hm (text_ne_nil_of_matchAt hm), List.map_cons] at heq
                have hle := le_of_mem_headingsFrom (heq ▸ List.mem_cons_self)
                simp only [sectionStart] at hle
                omega
              · rw [hmatch.mpr h.1] at hm
                cases hm

/-! ## Sections -/

/-- A section begins where its heading was found. -/
theorem sectionsOf_starts (length : ℕ) (found : List (ℕ × Match Char)) :
    (sectionsOf length found).map (fun s => (s.startOffset, s.ref)) = found.map sectionStart := by
  induction found with
  | nil => rfl
  | cons m rest ih => rw [sectionsOf, List.map_cons, ih, List.map_cons, sectionStart]

/-- A section ends where the next one starts, the last one at the end of the text. -/
theorem sectionsOf_ends (length : ℕ) (found : List (ℕ × Match Char)) :
    ∀ (j : ℕ) (s : DocumentSection), (sectionsOf length found)[j]? = some s →
      s.endOffset =
        ((sectionsOf length found)[j + 1]?.map DocumentSection.startOffset).getD length := by
  induction found with
  | nil => exact fun _ _ h => nomatch h
  | cons m rest ih =>
      rintro (_ | j) s h
      · obtain rfl := Option.some.inj h
        rcases rest with _ | ⟨m', rest⟩ <;> rfl
      · exact ih j s h

/-- The sections are those of the heading lines: they start there, with the texts of the headings,
and each goes to the start of the next one or to the end of the text. -/
def HasSectionsOfHeadings (document : ParsedDocument) : Prop :=
  document.sections.map (fun s => (s.startOffset, s.ref)) = headings document.plainText ∧
    ∀ (j : ℕ) (s : DocumentSection), document.sections[j]? = some s →
      s.endOffset = (document.sections[j + 1]?.map DocumentSection.startOffset).getD
        document.plainText.length

/-- **When the parser finds exactly the headings.** -/
theorem markdown_sections_iff (nfc : Text → Text) (content : Text) :
    HasSectionsOfHeadings (parse nfc content) ↔
      BareLinesHarmless ((normalizeText nfc content).splitOn '\n') := by
  have hlines := @finditer_lines_iff (fun _ => false)
    ((normalizeText nfc content).splitOn '\n') 0 none
    (fun line hline => Strings.not_mem_of_mem_splitOn hline) rfl
  rw [List.intercalate_splitOn] at hlines
  unfold HasSectionsOfHeadings parse
  simp only [sectionsOf_starts]
  rw [and_iff_left (sectionsOf_ends _ _)]
  exact hlines

/-- A line with one mark alone: the next line with text becomes the section of that line. -/
theorem bare_mark_is_section :
    ¬ ∀ (nfc : Text → Text) (content : Text), HasSectionsOfHeadings (parse nfc content) := by
  intro h
  have hsections := (h id "#\n\ntext".toList).1
  revert hsections
  decide +kernel

end MarkdownParser

end SyncBack
