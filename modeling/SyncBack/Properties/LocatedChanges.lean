import SyncBack.Properties.AppendedText

/-!
# What the mapper keeps, the exporters apply

The mapper and the exporters each decide whether a fragment occurs in the document. They strip and
normalise it differently:

* the mapper strips the fragment that it looks for, and stores the old text of a modification or a
  deletion as it came;
* the exporters normalise the fragment and strip it for additions alone.

`kept_changes_applied` says of text files for which items the two agree (`Unpadded`), and that every
other item is lost in some file; `kept_additions_placed` says the same of additions to docx files,
where the fragment must not run over a line end.
-/

namespace SyncBack

section

variable (nfc : Text → Text)

/-! ## Items as they come -/

/-- The text that an item points at, without the white space around it: the anchor of an addition,
given or inferred, the last paragraph of an old text that the new one repeats, and otherwise the
old text. -/
def fragmentOf (documentText : Text) (raw : LLMSuggestionItem) : Text :=
  let old := raw.oldText.getD []
  let anchor := strip (SuggestionMapper.firstNonEmpty raw.insertAfter raw.oldText)
  if raw.changeType = "add" then
    if anchor = [] then (SuggestionMapper.inferAnchor documentText raw.sectionRef).getD []
    else anchor
  else if raw.changeType = "modify" ∧ AppendsTo old (raw.newText.getD []) then
    SuggestionMapper.lastParagraph (strip old)
  else strip old

/-- The item changes the text, and the mapper stores what it looks for: an addition brings a
character other than a line feed, a modification goes on after its old text or has an old text
without white space around it and a new text that is another one, a deletion has an old text
without white space around it. -/
def Unpadded (raw : LLMSuggestionItem) : Prop :=
  let old := raw.oldText.getD []
  let new := raw.newText.getD []
  if raw.changeType = "add" then ∃ c ∈ new, c ≠ '\n'
  else raw.changeType = "modify" ∧ AppendsTo old new ∨
    strip old = old ∧ (raw.changeType = "modify" → new ≠ old)

/-- The item becomes an addition of a non-empty text. -/
def Adds (raw : LLMSuggestionItem) : Prop :=
  raw.changeType = "add" ∧ raw.newText.getD [] ≠ [] ∨
    raw.changeType = "modify" ∧ AppendsTo (raw.oldText.getD []) (raw.newText.getD [])

/-! ## What the mapper makes of them -/

/-- What an item becomes that is kept. -/
inductive Becomes (documentText : Text) (raw : LLMSuggestionItem) : AppliedChange → Prop
  /-- The anchor is stored as it is looked for. -/
  | add (h : raw.changeType = "add") :
      Becomes documentText raw ⟨.add, some (fragmentOf documentText raw), raw.newText⟩
  /-- The tail of a modification that goes on after its old text. -/
  | tail (h : raw.changeType = "modify")
      (happends : AppendsTo (raw.oldText.getD []) (raw.newText.getD [])) {tail : Text}
      (hne : strip tail ≠ []) :
      Becomes documentText raw ⟨.add, some (fragmentOf documentText raw), some tail⟩
  /-- The old text is stored as it came. -/
  | modify (h : raw.changeType = "modify")
      (happends : ¬ AppendsTo (raw.oldText.getD []) (raw.newText.getD [])) :
      Becomes documentText raw ⟨.modify, raw.oldText, raw.newText⟩
  | delete (h : raw.changeType = "delete") :
      Becomes documentText raw ⟨.delete, raw.oldText, raw.newText⟩
  /-- A modification without a new text is a deletion. -/
  | blank (h : raw.changeType = "modify") (hblank : strip (raw.newText.getD []) = []) :
      Becomes documentText raw ⟨.delete, raw.oldText, none⟩

section kept

variable {documentText : Text} {raw : LLMSuggestionItem}

/-- An inferred anchor is a stripped line. -/
theorem strip_anchorInLines {wanted anchor : Text} :
    ∀ {lines : List Text}, SuggestionMapper.anchorInLines wanted lines = some anchor →
      strip anchor = anchor
  | line :: rest, h => by
      rw [SuggestionMapper.anchorInLines] at h
      split at h
      · split at h
        · rw [← Option.some.inj h]
          exact Strings.strip_strip isSpace _
        · rw [← Option.some.inj h]
          exact Strings.strip_strip isSpace _
      · exact strip_anchorInLines h

/-- An inferred anchor is stripped. -/
theorem strip_inferAnchor {sectionRef : Text} :
    strip ((SuggestionMapper.inferAnchor documentText sectionRef).getD []) =
      (SuggestionMapper.inferAnchor documentText sectionRef).getD [] := by
  rcases h : SuggestionMapper.inferAnchor documentText sectionRef with _ | anchor
  · rfl
  · unfold SuggestionMapper.inferAnchor at h
    dsimp only at h
    split at h
    · cases h
    · exact strip_anchorInLines h

/-- A fragment has no white space around it. -/
theorem strip_fragmentOf : strip (fragmentOf documentText raw) = fragmentOf documentText raw := by
  unfold fragmentOf
  dsimp only
  split
  · split
    · exact strip_inferAnchor
    · exact Strings.strip_strip isSpace _
  · split
    · next h =>
      refine strip_lastParagraph ?_
      rw [show strip (strip _) = strip _ from Strings.strip_strip isSpace _]
      exact h.2.1
    · exact Strings.strip_strip isSpace _

/-- An addition has its anchor, given or inferred, in its old text. -/
theorem prepare_of_add (h : raw.changeType = "add") :
    (SuggestionMapper.prepare documentText raw).1.changeType = "add" ∧
      (SuggestionMapper.prepare documentText raw).1.oldText.getD [] = fragmentOf documentText raw ∧
      (SuggestionMapper.prepare documentText raw).1.newText = raw.newText := by
  have hnormal : SuggestionMapper.normalize raw = raw := by
    unfold SuggestionMapper.normalize
    exact if_pos (by rw [h]; decide)
  unfold fragmentOf SuggestionMapper.prepare SuggestionMapper.resolveAnchor
  rw [hnormal]
  simp only [h, ne_eq, not_true_eq_false, if_false, if_true, ite_not]
  split <;> simp

/-- Only additions get an anchor. -/
theorem prepare_of_normalize {item : LLMSuggestionItem}
    (hnormal : SuggestionMapper.normalize raw = item) (hitem : item.changeType ≠ "add") :
    SuggestionMapper.prepare documentText raw = (item, false) := by
  unfold SuggestionMapper.prepare SuggestionMapper.resolveAnchor
  rw [hnormal]
  simp only [if_pos hitem]

/-- The fragment of an item that adds nothing is its stripped old text. -/
theorem fragmentOf_of_not_add (hadd : raw.changeType ≠ "add")
    (happends : ¬ (raw.changeType = "modify" ∧ AppendsTo (raw.oldText.getD []) (raw.newText.getD []))) :
    fragmentOf documentText raw = strip (raw.oldText.getD []) := by
  unfold fragmentOf
  dsimp only
  rw [if_neg hadd, if_neg happends]

/-- An item that adds nothing is `Unpadded` if its old text is, and a modification brings another
text. -/
theorem unpadded_iff_of_not_add (hadd : raw.changeType ≠ "add")
    (happends : ¬ (raw.changeType = "modify" ∧ AppendsTo (raw.oldText.getD []) (raw.newText.getD []))) :
    Unpadded raw ↔ strip (raw.oldText.getD []) = raw.oldText.getD [] ∧
      (raw.changeType = "modify" → raw.newText.getD [] ≠ raw.oldText.getD []) := by
  unfold Unpadded
  dsimp only
  rw [if_neg hadd, or_iff_right happends]

/-- An addition stays one, with its fragment for an anchor. -/
theorem becomes_of_add (hadd : raw.changeType = "add") {changeType : ChangeType}
    (htype : SuggestionMapper.changeTypeMap
      (SuggestionMapper.prepare documentText raw).1.changeType = some changeType)
    (hne : strip ((SuggestionMapper.prepare documentText raw).1.oldText.getD []) ≠ []) :
    strip ((SuggestionMapper.prepare documentText raw).1.oldText.getD []) =
        fragmentOf documentText raw ∧
      Becomes documentText raw (changeOf documentText raw changeType) := by
  unfold changeOf
  obtain ⟨hchange, hold, hnew⟩ :
      (SuggestionMapper.prepare documentText raw).1.changeType = "add" ∧
        (SuggestionMapper.prepare documentText raw).1.oldText.getD [] =
          fragmentOf documentText raw ∧
        (SuggestionMapper.prepare documentText raw).1.newText = raw.newText := prepare_of_add hadd
  rw [hchange] at htype
  obtain rfl : ChangeType.add = changeType := Option.some.inj htype
  rw [hold, strip_fragmentOf] at hne
  have hsome : (SuggestionMapper.prepare documentText raw).1.oldText =
      some (fragmentOf documentText raw) := by
    rcases h : (SuggestionMapper.prepare documentText raw).1.oldText with _ | old
    · rw [h] at hold
      exact absurd hold.symm hne
    · rw [h, Option.getD_some] at hold
      rw [hold]
  rw [hold, strip_fragmentOf, hnew, hsome]
  exact ⟨rfl, .add hadd⟩

/-- A modification becomes the addition of its tail, a deletion, or stays as it came. -/
theorem becomes_of_modify (hmodify : raw.changeType = "modify") {changeType : ChangeType}
    (htype : SuggestionMapper.changeTypeMap
      (SuggestionMapper.prepare documentText raw).1.changeType = some changeType) :
    strip ((SuggestionMapper.prepare documentText raw).1.oldText.getD []) =
        fragmentOf documentText raw ∧
      Becomes documentText raw (changeOf documentText raw changeType) := by
  have hadd : raw.changeType ≠ "add" := by
    rw [hmodify]
    decide
  unfold changeOf
  by_cases happends : AppendsTo (raw.oldText.getD []) (raw.newText.getD [])
  · have h := AppendsTo.appends hmodify happends
    have hfragment : fragmentOf documentText raw =
        SuggestionMapper.lastParagraph (strip (raw.oldText.getD [])) := by
      unfold fragmentOf
      dsimp only
      rw [if_neg hadd, if_pos ⟨hmodify, happends⟩]
    rw [h.prepare_eq] at htype ⊢
    obtain rfl : ChangeType.add = changeType := Option.some.inj htype
    rw [← hfragment, Option.getD_some, strip_fragmentOf]
    refine ⟨rfl, .tail hmodify happends ?_⟩
    rw [show strip (strip _) = strip _ from Strings.strip_strip isSpace _]
    exact h.appended_ne_nil
  · rw [fragmentOf_of_not_add hadd fun h => happends h.2]
    by_cases hblank : strip (raw.oldText.getD []) ≠ [] ∧ strip (raw.newText.getD []) = []
    · have hnormal : SuggestionMapper.normalize raw =
          { raw with changeType := "delete", newText := none } := by
        unfold SuggestionMapper.normalize
        simp only [hmodify, ne_eq, not_true_eq_false, if_false, if_pos hblank]
      rw [prepare_of_normalize hnormal (show "delete" ≠ "add" by decide)] at htype ⊢
      obtain rfl : ChangeType.delete = changeType := Option.some.inj htype
      exact ⟨rfl, .blank hmodify hblank.2⟩
    · have hnormal : SuggestionMapper.normalize raw = raw := by
        unfold SuggestionMapper.normalize
        simp only [hmodify, ne_eq, not_true_eq_false, if_false, if_neg hblank]
        exact if_neg happends
      rw [prepare_of_normalize hnormal hadd] at htype ⊢
      rw [hmodify] at htype
      obtain rfl : ChangeType.modify = changeType := Option.some.inj htype
      exact ⟨rfl, .modify hmodify happends⟩

/-- Of the other types only a deletion is known, and it stays as it came. -/
theorem becomes_of_other (hadd : raw.changeType ≠ "add") (hmodify : raw.changeType ≠ "modify")
    {changeType : ChangeType}
    (htype : SuggestionMapper.changeTypeMap
      (SuggestionMapper.prepare documentText raw).1.changeType = some changeType) :
    strip ((SuggestionMapper.prepare documentText raw).1.oldText.getD []) =
        fragmentOf documentText raw ∧
      Becomes documentText raw (changeOf documentText raw changeType) := by
  have hnormal : SuggestionMapper.normalize raw = raw := by
    unfold SuggestionMapper.normalize
    exact if_pos hmodify
  unfold changeOf
  rw [prepare_of_normalize hnormal hadd] at htype ⊢
  rw [fragmentOf_of_not_add hadd fun h => hmodify h.1]
  have hdelete : raw.changeType = "delete" ∧ changeType = .delete := by
    unfold SuggestionMapper.changeTypeMap at htype
    rw [if_neg hadd, if_neg hmodify] at htype
    split at htype
    · next hdelete => exact ⟨hdelete, (Option.some.inj htype).symm⟩
    · cases htype
  obtain ⟨hdelete, rfl⟩ := hdelete
  exact ⟨rfl, .delete hdelete⟩

/-- What an item of a known type is prepared to, and the text that is then looked for. -/
theorem becomes_of_changeType {changeType : ChangeType}
    (htype : SuggestionMapper.changeTypeMap
      (SuggestionMapper.prepare documentText raw).1.changeType = some changeType)
    (hne : strip ((SuggestionMapper.prepare documentText raw).1.oldText.getD []) ≠ []) :
    strip ((SuggestionMapper.prepare documentText raw).1.oldText.getD []) =
        fragmentOf documentText raw ∧
      Becomes documentText raw (changeOf documentText raw changeType) := by
  by_cases hadd : raw.changeType = "add"
  · exact becomes_of_add hadd htype hne
  by_cases hmodify : raw.changeType = "modify"
  · exact becomes_of_modify hmodify htype
  · exact becomes_of_other hadd hmodify htype

/-- A kept item points at a text of the document. -/
theorem becomes_of_kept {format : DocumentFormat} (h : Kept documentText format raw) :
    fragmentOf documentText raw ≠ [] ∧ fragmentOf documentText raw <:+: documentText ∧
      ∃ changeType, SuggestionMapper.changeTypeMap
        (SuggestionMapper.prepare documentText raw).1.changeType = some changeType ∧
        Becomes documentText raw (changeOf documentText raw changeType) := by
  obtain ⟨⟨changeType, htype⟩, hne, hin⟩ := skipReason_eq_none h
  obtain ⟨hfragment, hbecomes⟩ := becomes_of_changeType htype hne
  rw [hfragment] at hne hin
  exact ⟨hne, hin, changeType, htype, hbecomes⟩

end kept

/-! ## Text files -/

namespace TextExporter

/-- The exporter locates the change in the file and applies it: the old text is replaced where it
stands, or a non-empty block goes in after the line of the anchor. The file changes by it. -/
def Applied (content : Text) (change : AppliedChange) : Prop :=
  applyChanges nfc content [change] ≠ applyChanges nfc content [] ∧
    match change.changeType with
    | .add => ∃ position, exporterAnchor nfc change ≠ [] ∧
        anchorLineEnd (normalizeText nfc content) (exporterAnchor nfc change) = some position ∧
        block change ≠ [] ∧
        applyChanges nfc content [change] =
          insertBlock (normalizeText nfc content) position (block change)
    | .modify => ∃ pre post, normalizeText nfc (change.oldText.getD []) ≠ [] ∧
        normalizeText nfc content = pre ++ normalizeText nfc (change.oldText.getD []) ++ post ∧
        applyChanges nfc content [change] = pre ++ change.newText.getD [] ++ post
    | .delete => ∃ pre post, normalizeText nfc (change.oldText.getD []) ≠ [] ∧
        normalizeText nfc content = pre ++ normalizeText nfc (change.oldText.getD []) ++ post ∧
        applyChanges nfc content [change] = pre ++ post

variable {nfc}

/-- The anchor's line is found if the anchor occurs. -/
theorem anchorLineEnd_isSome_iff {text anchor : Text} :
    (anchorLineEnd text anchor).isSome ↔ anchor <:+: text := by
  rw [← Strings.find_isSome_iff]
  unfold anchorLineEnd
  rcases Strings.find text anchor with _ | index
  · rfl
  · simp only [Option.isSome_some, iff_true]
    rcases Strings.find (text.drop (index + anchor.length)) ['\n'] with _ | newline <;> rfl

/-- The block is empty if the new text has nothing but line feeds. -/
theorem block_eq_nil_iff {change : AppliedChange} :
    block change = [] ↔ ∀ c ∈ change.newText.getD [], c = '\n' := by
  unfold block
  rw [Strings.strip_eq_nil_iff]
  simp

/-- A block that holds more than line feeds changes the text. -/
theorem insertBlock_ne {text block : Text} {position : ℕ} (h : ∃ c ∈ block, c ≠ '\n') :
    insertBlock text position block ≠ text := by
  intro heq
  have hfilter := filter_insertBlock (q := fun c => decide (c ≠ '\n')) (by simp) text position block
  rw [heq] at hfilter
  have hlength := congrArg List.length hfilter
  conv_lhs at hlength => rw [← List.take_append_drop position text, List.filter_append]
  simp only [List.length_append] at hlength
  have hnone : block.filter (fun c => decide (c ≠ '\n')) = [] := by
    apply List.eq_nil_of_length_eq_zero
    omega
  obtain ⟨c, hc, hne⟩ := h
  exact List.filter_eq_nil_iff.mp hnone c hc (by simpa using hne)

/-- An addition is applied iff its block is not empty and its anchor is found. -/
theorem applied_add_iff {content : Text} {old new : Option Text} :
    Applied nfc content ⟨.add, old, new⟩ ↔
      (∃ c ∈ new.getD [], c ≠ '\n') ∧ exporterAnchor nfc ⟨.add, old, new⟩ ≠ [] ∧
        exporterAnchor nfc ⟨.add, old, new⟩ <:+: normalizeText nfc content := by
  have hblock : block ⟨.add, old, new⟩ ≠ [] ↔ ∃ c ∈ new.getD [], c ≠ '\n' := by
    rw [Ne, block_eq_nil_iff]
    push Not
    rfl
  rw [← anchorLineEnd_isSome_iff, Option.isSome_iff_exists, ← hblock]
  constructor
  · rintro ⟨-, position, hanchor, hpos, hb, -⟩
    exact ⟨hb, hanchor, position, hpos⟩
  · rintro ⟨hb, hanchor, position, hpos⟩
    have hnew : new.getD [] ≠ [] := by
      intro hnil
      exact hb (block_eq_nil_iff.mpr (by simp [hnil]))
    have hresult : applyChanges nfc content [⟨.add, old, new⟩] =
        insertBlock (normalizeText nfc content) position (block ⟨.add, old, new⟩) := by
      have hanchor' := hanchor
      have hpos' := hpos
      unfold exporterAnchor at hanchor' hpos'
      simp only [applyChanges, List.foldl_cons, List.foldl_nil, applyChange, if_neg hnew,
        placeAddition, if_neg hanchor', hpos']
    refine ⟨?_, position, hanchor, hpos, hb, hresult⟩
    rw [hresult]
    refine insertBlock_ne ?_
    have hlast := Strings.getLast_strip (fun c : Char => decide (c = '\n')) (l := new.getD []) hb
    exact ⟨_, List.getLast_mem hb, of_decide_eq_false hlast⟩

/-- A replacement is applied iff the fragment, as the exporter normalises it, is not empty and
stands in the text, and another text is put in its place. -/
theorem applied_replace_iff {content : Text} {change : AppliedChange}
    (h : change.changeType ≠ .add) :
    Applied nfc content change ↔
      normalizeText nfc (change.oldText.getD []) ≠ [] ∧
        normalizeText nfc (change.oldText.getD []) <:+: normalizeText nfc content ∧
        normalizeText nfc (change.oldText.getD []) ≠ change.replacement := by
  obtain ⟨changeType, old, new⟩ := change
  have hresult : normalizeText nfc (old.getD []) ≠ [] →
      applyChanges nfc content [⟨changeType, old, new⟩] =
        Strings.replaceFirst (normalizeText nfc content) (normalizeText nfc (old.getD []))
          (AppliedChange.replacement ⟨changeType, old, new⟩) := by
    intro hne
    cases changeType with
    | add => exact absurd rfl h
    | modify | delete =>
        simp only [applyChanges, List.foldl_cons, List.foldl_nil, applyChange, if_neg hne]
        rfl
  have hplain : applyChanges nfc content [] = normalizeText nfc content := rfl
  constructor
  · intro ha
    obtain ⟨pre, post, hne, heq, hexport⟩ : ∃ pre post, normalizeText nfc (old.getD []) ≠ [] ∧
        normalizeText nfc content = pre ++ normalizeText nfc (old.getD []) ++ post ∧
        applyChanges nfc content [⟨changeType, old, new⟩] =
          pre ++ AppliedChange.replacement ⟨changeType, old, new⟩ ++ post := by
      cases changeType with
      | add => exact absurd rfl h
      | modify => exact ha.2
      | delete =>
          obtain ⟨pre, post, hne, heq, hexport⟩ := ha.2
          exact ⟨pre, post, hne, heq, by simpa [AppliedChange.replacement] using hexport⟩
    refine ⟨hne, ⟨pre, post, heq.symm⟩, fun hsame => ha.1 ?_⟩
    rw [hexport, hplain, heq]
    dsimp only at hsame
    rw [hsame]
  · rintro ⟨hne, hin, hother⟩
    obtain ⟨pre, post, heq, hreplaced⟩ :=
      Strings.replaceFirst_of_infix (AppliedChange.replacement ⟨changeType, old, new⟩) hin
    dsimp only at hne heq hreplaced hother
    rw [← hresult hne] at hreplaced
    refine ⟨?_, ?_⟩
    · rw [hreplaced, hplain, heq]
      intro hsame
      exact hother (List.append_cancel_left (List.append_cancel_right hsame)).symm
    · cases changeType with
      | add => exact absurd rfl h
      | modify => exact ⟨pre, post, hne, heq, hreplaced⟩
      | delete => exact ⟨pre, post, hne, heq, by simpa [AppliedChange.replacement] using hreplaced⟩

end TextExporter

/-! ## White space around a fragment -/

/-- What the Unicode standard says of white space in the composed form: every such character stays
one, and does not compose with its neighbours. -/
structure SpacesStay (nfc : Text → Text) : Prop where
  space : ∀ c, isSpace c = true → ∃ d, isSpace d = true ∧
    ∀ pre post, nfc (pre ++ c :: post) = nfc pre ++ d :: nfc post

/-- Nothing is composed: the composed form on ASCII texts. -/
theorem SpacesStay.id : SpacesStay id where
  space c hc := ⟨c, hc, fun _ _ => rfl⟩

section spaces

variable {nfc}

/-- Line ends are sought on the two sides of a cut alone that does not fall inside one. -/
theorem crlfToLf_append {a b : Text} (h : a.getLast? ≠ some '\r' ∨ b.head? ≠ some '\n') :
    crlfToLf (a ++ b) = crlfToLf a ++ crlfToLf b := by
  induction a using crlf_induction with
  | nil => rfl
  | crlf rest ih =>
      rw [List.cons_append, List.cons_append, crlfToLf, crlfToLf, List.cons_append, ih]
      refine h.imp_left fun hlast hrest => hlast ?_
      rw [List.getLast?_cons_cons, List.getLast?_cons, hrest, Option.getD_some]
  | cons c rest hc ih =>
      have hc' : c ≠ '\r' ∨ (rest ++ b).head? ≠ some '\n' := by
        cases rest with
        | nil => exact h.imp_left fun hlast hcr => hlast (by rw [hcr, List.getLast?_singleton])
        | cons d rest => exact hc
      rw [List.cons_append, crlfToLf_eq_cons hc', crlfToLf_eq_cons hc, List.cons_append, ih]
      refine h.imp_left fun hlast hrest => hlast ?_
      rw [List.getLast?_cons, hrest, Option.getD_some]

/-- The white space before a text is composed on its own. -/
theorem SpacesStay.append_left (hspaces : SpacesStay nfc) (hnil : nfc [] = []) :
    ∀ {lead : Text}, (∀ c ∈ lead, isSpace c = true) → ∀ rest : Text, ∃ lead',
      nfc (lead ++ rest) = lead' ++ nfc rest ∧ lead'.length = lead.length ∧
        ∀ c ∈ lead', isSpace c = true
  | [], _, rest => ⟨[], rfl, rfl, fun _ h => absurd h List.not_mem_nil⟩
  | c :: lead, h, rest => by
      obtain ⟨hc, hlead⟩ := List.forall_mem_cons.mp h
      obtain ⟨d, hd, hcompose⟩ := hspaces.space c hc
      obtain ⟨lead', heq, hlength, hall⟩ := hspaces.append_left hnil hlead rest
      refine ⟨d :: lead', ?_, by simp [hlength], List.forall_mem_cons.mpr ⟨hd, hall⟩⟩
      have hfirst := hcompose [] (lead ++ rest)
      rw [hnil] at hfirst
      rw [List.cons_append, ← List.nil_append (c :: (lead ++ rest)), hfirst, heq]
      rfl

/-- So is the white space after it. -/
theorem SpacesStay.append_right (hspaces : SpacesStay nfc) (hnil : nfc [] = []) {trail : Text}
    (h : ∀ c ∈ trail, isSpace c = true) (front : Text) : ∃ trail',
      nfc (front ++ trail) = nfc front ++ trail' ∧ trail'.length = trail.length ∧
        ∀ c ∈ trail', isSpace c = true := by
  cases trail with
  | nil => exact ⟨[], by simp, rfl, fun _ h => absurd h List.not_mem_nil⟩
  | cons c rest =>
      obtain ⟨hc, hrest⟩ := List.forall_mem_cons.mp h
      obtain ⟨d, hd, hcompose⟩ := hspaces.space c hc
      obtain ⟨rest', heq, hlength, hall⟩ := hspaces.append_left hnil hrest []
      rw [List.append_nil, hnil, List.append_nil] at heq
      refine ⟨d :: rest', ?_, by simp [hlength], List.forall_mem_cons.mpr ⟨hd, hall⟩⟩
      rw [hcompose, heq]

/-- White space does not vanish. -/
theorem stages_ne_nil {text : Text} (hne : text ≠ []) (h : ∀ c ∈ text, isSpace c = true) :
    (crlfToLf text).filterMap spaceLike ≠ [] := by
  obtain ⟨c, hc⟩ : ∃ c, c ∈ crlfToLf text := by
    apply List.exists_mem_of_ne_nil
    induction text using crlf_induction with
    | nil => exact absurd rfl hne
    | crlf rest => simp [crlfToLf]
    | cons c rest hc => simp [crlfToLf_eq_cons hc]
  obtain ⟨d, hd⟩ : ∃ d, spaceLike c = some d := by
    have hspace := h c (mem_of_mem_crlfToLf hc)
    rw [← Option.ne_none_iff_exists']
    intro hnone
    unfold spaceLike at hnone
    split at hnone
    · cases hnone
    · split at hnone
      · next hzero =>
        simp only [List.mem_cons, List.not_mem_nil, or_false] at hzero
        rcases hzero with hzero | hzero <;> simp [isSpace, hzero] at hspace
      · cases hnone
  exact List.ne_nil_of_mem (List.mem_filterMap.mpr ⟨c, hc, hd⟩)

/-- A fragment with white space around it stays longer than without it. -/
theorem strip_eq_self_of_normalizeText_infix (hnfc : ComposedForm nfc) (hspaces : SpacesStay nfc)
    {old : Text} (hne : strip old ≠ []) (hcore : normalizeText nfc (strip old) = strip old)
    (hin : normalizeText nfc old <:+: strip old) : strip old = old := by
  have hsplit : Strings.lead isSpace old ++ (strip old ++ Strings.trail isSpace old) = old :=
    Strings.lead_strip_trail isSpace old
  have htrailing : ∀ c ∈ Strings.trail isSpace old, isSpace c = true :=
    fun c hc => List.mem_rtakeWhile_imp hc
  have hleading : ∀ c ∈ Strings.lead isSpace old, isSpace c = true :=
    fun c hc => List.mem_takeWhile_imp hc
  obtain ⟨trail, htrail, htrailLength, htrailSpace⟩ :=
    hspaces.append_right hnfc.nil htrailing (strip old)
  obtain ⟨lead, hlead, hleadLength, hleadSpace⟩ :=
    hspaces.append_left hnfc.nil hleading (strip old ++ Strings.trail isSpace old)
  obtain ⟨hcomposed, hcrlf, hfixed⟩ := hnfc.normalizeText_eq_self_iff.mp hcore
  -- the three parts are normalised on their own
  have hhead : (strip old ++ trail).head? ≠ some '\n' := by
    have hspace := Strings.head_strip isSpace (l := old) hne
    rw [List.head?_append_of_ne_nil _ hne, List.head?_eq_some_head hne]
    intro hnl
    rw [show (Strings.strip isSpace old).head hne = '\n' from Option.some.inj hnl] at hspace
    cases hspace
  have hlast : (strip old).getLast? ≠ some '\r' := by
    have hspace := Strings.getLast_strip isSpace (l := old) hne
    rw [List.getLast?_eq_some_getLast hne]
    intro hcr
    rw [show (Strings.strip isSpace old).getLast hne = '\r' from Option.some.inj hcr] at hspace
    cases hspace
  have hparts : normalizeText nfc old = (crlfToLf lead).filterMap spaceLike ++
      (strip old ++ (crlfToLf trail).filterMap spaceLike) := by
    conv_lhs => rw [← hsplit]
    rw [normalizeText, hlead, htrail, hcomposed, crlfToLf_append (.inr hhead),
      crlfToLf_append (.inl hlast), (crlfToLf_eq_self_iff _).mpr hcrlf, List.filterMap_append,
      List.filterMap_append, filterMap_spaceLike_eq_self_iff.mpr hfixed]
  have hlength := hin.length_le
  rw [hparts] at hlength
  simp only [List.length_append] at hlength
  have hblank : ∀ {part : Text}, (∀ c ∈ part, isSpace c = true) →
      ((crlfToLf part).filterMap spaceLike).length = 0 → part = [] := by
    intro part hall hzero
    by_contra hpart
    exact stages_ne_nil hpart hall (List.eq_nil_of_length_eq_zero hzero)
  rw [hblank hleadSpace (by omega), List.length_nil] at hleadLength
  rw [hblank htrailSpace (by omega), List.length_nil] at htrailLength
  rw [List.eq_nil_of_length_eq_zero hleadLength.symm,
    List.eq_nil_of_length_eq_zero htrailLength.symm, List.nil_append, List.append_nil] at hsplit
  exact hsplit

end spaces

/-! ## Which items are applied -/

/-- The parser leaves the text of the file alone when it is given it again. -/
def Stable (content : Text) : Prop :=
  normalizeText nfc (normalizeText nfc content) = normalizeText nfc content

/-- What the item becomes is applied to every such file in which it is kept. -/
def AppliedWhereKept (format : DocumentFormat) (raw : LLMSuggestionItem) : Prop :=
  ∀ content, Stable nfc content → Kept (normalizeText nfc content) format raw →
    ∀ changeType, SuggestionMapper.changeTypeMap
      (SuggestionMapper.prepare (normalizeText nfc content) raw).1.changeType = some changeType →
      TextExporter.Applied nfc content (changeOf (normalizeText nfc content) raw changeType)

section items

variable {nfc} {content : Text} {raw : LLMSuggestionItem}

/-- A modification without a new text does not go on after its old text. -/
theorem not_appendsTo_of_blank {old new : Text} (h : strip new = []) : ¬ AppendsTo old new := by
  rintro ⟨-, hlonger, -⟩
  rw [h] at hlonger
  exact absurd hlonger (Nat.not_lt_zero _)

/-- An old text that is stored as it came is replaced, if the fragment is normalised and the item
`Unpadded`. -/
theorem applied_of_unpadded (hadd : raw.changeType ≠ "add")
    (happends : ¬ (raw.changeType = "modify" ∧ AppendsTo (raw.oldText.getD []) (raw.newText.getD [])))
    (hne : fragmentOf (normalizeText nfc content) raw ≠ [])
    (hin : fragmentOf (normalizeText nfc content) raw <:+: normalizeText nfc content)
    (hfixed : normalizeText nfc (fragmentOf (normalizeText nfc content) raw) =
      fragmentOf (normalizeText nfc content) raw)
    (hraw : Unpadded raw) {change : AppliedChange} (hchange : change.changeType ≠ .add)
    (hold : change.oldText = raw.oldText)
    (hnew : raw.oldText.getD [] ≠ [] → change.replacement ≠ raw.oldText.getD []) :
    TextExporter.Applied nfc content change := by
  have hunpadded := ((unpadded_iff_of_not_add hadd happends).mp hraw).1
  rw [fragmentOf_of_not_add hadd happends, hunpadded] at hne hin hfixed
  rw [TextExporter.applied_replace_iff hchange, hold, hfixed]
  exact ⟨hne, hin, (hnew hne).symm⟩

/-- What an item becomes is applied, if the fragment is normalised and the item `Unpadded`. -/
theorem Becomes.applied {change : AppliedChange}
    (h : Becomes (normalizeText nfc content) raw change)
    (hne : fragmentOf (normalizeText nfc content) raw ≠ [])
    (hin : fragmentOf (normalizeText nfc content) raw <:+: normalizeText nfc content)
    (hfixed : normalizeText nfc (fragmentOf (normalizeText nfc content) raw) =
      fragmentOf (normalizeText nfc content) raw)
    (hraw : Unpadded raw) : TextExporter.Applied nfc content change := by
  have hanchor : ∀ new, exporterAnchor nfc
      ⟨.add, some (fragmentOf (normalizeText nfc content) raw), new⟩ =
        fragmentOf (normalizeText nfc content) raw := by
    intro new
    rw [exporterAnchor, Option.getD_some, hfixed, strip_fragmentOf]
  cases h with
  | add hadd =>
      unfold Unpadded at hraw
      rw [if_pos hadd] at hraw
      rw [TextExporter.applied_add_iff, hanchor]
      exact ⟨hraw, hne, hin⟩
  | @tail _ _ tail htail =>
      rw [TextExporter.applied_add_iff, hanchor]
      refine ⟨?_, hne, hin⟩
      by_contra hfeeds
      push Not at hfeeds
      refine htail ((Strings.strip_eq_nil_iff isSpace tail).mpr fun c hc => ?_)
      rw [hfeeds c hc]
      rfl
  | modify hmodify happends =>
      have hadd : raw.changeType ≠ "add" := by
        rw [hmodify]
        decide
      have happends' : ¬ (raw.changeType = "modify" ∧
          AppendsTo (raw.oldText.getD []) (raw.newText.getD [])) := fun h => happends h.2
      exact applied_of_unpadded hadd happends' hne hin hfixed hraw ChangeType.noConfusion rfl
        fun _ => ((unpadded_iff_of_not_add hadd happends').mp hraw).2 hmodify
  | delete hdelete =>
      refine applied_of_unpadded (by rw [hdelete]; decide) (fun h => ?_) hne hin hfixed hraw
        ChangeType.noConfusion rfl fun hold => hold.symm
      rw [hdelete] at h
      exact absurd h.1 (by decide)
  | blank hmodify hblank =>
      exact applied_of_unpadded (by rw [hmodify]; decide)
        (fun h => not_appendsTo_of_blank hblank h.2) hne hin hfixed hraw ChangeType.noConfusion rfl
        fun hold => hold.symm

/-- Another document is searched for the same text. -/
theorem skipReason_of_infix {item : LLMSuggestionItem} {text text' : Text} {single : Bool}
    (h : SuggestionMapper.skipReason item text single = none)
    (hin : strip (item.oldText.getD []) <:+: text') :
    SuggestionMapper.skipReason item text' single = none := by
  have hin' := (skipReason_eq_none h).2.2
  unfold SuggestionMapper.skipReason at h ⊢
  simpa only [if_pos hin, if_pos hin'] using h

/-- An item that is no addition is kept in a document that is its fragment, and becomes the same. -/
theorem kept_in_fragment {documentText : Text} {format : DocumentFormat}
    (h : Kept documentText format raw)
    (hadd : (SuggestionMapper.prepare documentText raw).1.changeType ≠ "add") :
    Kept (strip ((SuggestionMapper.prepare documentText raw).1.oldText.getD [])) format raw ∧
      ∀ text, SuggestionMapper.prepare text raw = SuggestionMapper.prepare documentText raw := by
  have hsame : ∀ text, SuggestionMapper.prepare text raw =
      SuggestionMapper.prepare documentText raw := by
    intro text
    have hnormal : (SuggestionMapper.normalize raw).changeType ≠ "add" := by
      intro hnormal
      refine hadd ?_
      unfold SuggestionMapper.prepare SuggestionMapper.resolveAnchor
      simp only [hnormal, ne_eq, not_true_eq_false, if_false, ite_not]
      split <;> rfl
    rw [prepare_of_normalize rfl hnormal, prepare_of_normalize rfl hnormal]
  refine ⟨?_, hsame⟩
  unfold Kept at h ⊢
  rw [hsame]
  exact skipReason_of_infix h (List.infix_refl _)

/-- An item that is no addition is `Unpadded`, if the exporter finds its old text in a document
that is its fragment, and puts another text in its place. -/
theorem strip_of_applied_in_fragment (hnfc : ComposedForm nfc) (hspaces : SpacesStay nfc)
    {documentText : Text} {format : DocumentFormat} (hkept : Kept documentText format raw)
    {changeType : ChangeType}
    (htype : SuggestionMapper.changeTypeMap
      (SuggestionMapper.prepare documentText raw).1.changeType = some changeType)
    (hchange : changeType ≠ .add)
    (hold : (SuggestionMapper.prepare documentText raw).1.oldText = raw.oldText)
    (hfixed : normalizeText nfc (strip (raw.oldText.getD [])) = strip (raw.oldText.getD []))
    (happlied : AppliedWhereKept nfc format raw) :
    strip (raw.oldText.getD []) = raw.oldText.getD [] := by
  have hadd : (SuggestionMapper.prepare documentText raw).1.changeType ≠ "add" :=
    fun hadd => hchange ((changeTypeMap_add_iff htype).mpr hadd)
  obtain ⟨hkept', hsame⟩ := kept_in_fragment hkept hadd
  have hne := (skipReason_eq_none hkept).2.1
  rw [hold] at hkept' hne
  have hlocated := happlied (strip (raw.oldText.getD [])) (by rw [Stable, hfixed, hfixed])
    (by rwa [hfixed]) changeType (by rwa [hsame])
  rw [changeOf, hsame, hold, TextExporter.applied_replace_iff hchange, hfixed] at hlocated
  exact strip_eq_self_of_normalizeText_infix hnfc hspaces hne hfixed hlocated.2.1

/-- An item is `Unpadded`, if what it becomes is applied in this file and wherever it is kept. -/
theorem Becomes.unpadded (hnfc : ComposedForm nfc) (hspaces : SpacesStay nfc)
    {documentText : Text} {format : DocumentFormat} {changeType : ChangeType}
    (h : Becomes documentText raw (changeOf documentText raw changeType))
    (hfixed : normalizeText nfc (fragmentOf documentText raw) = fragmentOf documentText raw)
    (hkept : Kept documentText format raw)
    (htype : SuggestionMapper.changeTypeMap
      (SuggestionMapper.prepare documentText raw).1.changeType = some changeType)
    (happlied : AppliedWhereKept nfc format raw)
    (hhere : TextExporter.Applied nfc content (changeOf documentText raw changeType)) :
    Unpadded raw := by
  obtain ⟨change, hbecomes⟩ : ∃ change, change = changeOf documentText raw changeType := ⟨_, rfl⟩
  rw [← hbecomes] at h hhere
  have htypes : change.changeType = changeType := by rw [hbecomes, changeOf]
  have holds : change.oldText = (SuggestionMapper.prepare documentText raw).1.oldText := by
    rw [hbecomes, changeOf]
  -- what is stored as it came was searched for without its white space
  have hreplace : raw.changeType ≠ "add" →
      ¬ (raw.changeType = "modify" ∧ AppendsTo (raw.oldText.getD []) (raw.newText.getD [])) →
      change.changeType ≠ .add → change.oldText = raw.oldText →
      strip (raw.oldText.getD []) = raw.oldText.getD [] := by
    intro hadd happends hchange hold
    rw [fragmentOf_of_not_add hadd happends] at hfixed
    exact strip_of_applied_in_fragment hnfc hspaces hkept htype (htypes ▸ hchange)
      (holds.symm.trans hold) hfixed happlied
  have hmodify_ne : raw.changeType = "modify" → raw.changeType ≠ "add" := by
    intro hmodify
    rw [hmodify]
    decide
  cases h with
  | add hadd =>
      unfold Unpadded
      dsimp only
      rw [if_pos hadd]
      exact (TextExporter.applied_add_iff.mp hhere).1
  | tail hmodify happends =>
      unfold Unpadded
      dsimp only
      rw [if_neg (hmodify_ne hmodify)]
      exact .inl ⟨hmodify, happends⟩
  | modify hmodify happends =>
      have hadd := hmodify_ne hmodify
      have happends' : ¬ (raw.changeType = "modify" ∧
          AppendsTo (raw.oldText.getD []) (raw.newText.getD [])) := fun h => happends h.2
      have hstrip := hreplace hadd happends' ChangeType.noConfusion rfl
      refine (unpadded_iff_of_not_add hadd happends').mpr ⟨hstrip, fun _ hsame => ?_⟩
      have hother := ((TextExporter.applied_replace_iff ChangeType.noConfusion).mp hhere).2.2
      rw [fragmentOf_of_not_add hadd happends', hstrip] at hfixed
      dsimp only at hother
      rw [hfixed] at hother
      exact hother hsame.symm
  | delete hdelete =>
      have hadd : raw.changeType ≠ "add" := by
        rw [hdelete]
        decide
      have hmodify : raw.changeType ≠ "modify" := by
        rw [hdelete]
        decide
      have happends' : ¬ (raw.changeType = "modify" ∧
          AppendsTo (raw.oldText.getD []) (raw.newText.getD [])) := fun h => hmodify h.1
      exact (unpadded_iff_of_not_add hadd happends').mpr
        ⟨hreplace hadd happends' ChangeType.noConfusion rfl, fun h => absurd h hmodify⟩
  | blank hmodify hblank =>
      have hadd := hmodify_ne hmodify
      have happends' : ¬ (raw.changeType = "modify" ∧
          AppendsTo (raw.oldText.getD []) (raw.newText.getD [])) :=
        fun h => not_appendsTo_of_blank hblank h.2
      refine (unpadded_iff_of_not_add hadd happends').mpr
        ⟨hreplace hadd happends' ChangeType.noConfusion rfl, fun _ hsame => ?_⟩
      have hne := (skipReason_eq_none hkept).2.1
      rw [← holds] at hne
      rw [← hsame] at hne
      exact hne hblank

end items

/-- **Which kept suggestions the exporter of text files applies.** A suggestion of a text file,
accepted alone and without edits, is located in the file and changes it, if its fragment is
normalised and its item `Unpadded`. An item that is not is lost in some file; left open are the
files alone whose text a second normalisation changes. -/
theorem kept_changes_applied {nfc : Text → Text} (hnfc : ComposedForm nfc)
    (hspaces : SpacesStay nfc) (batch : List LLMSuggestionItem) (jobId documentId : Uuid)
    (format : DocumentFormat) :
    (∀ content,
      (∀ raw ∈ batch, Kept (TextParser.plainText nfc content) format raw →
        normalizeText nfc (fragmentOf (TextParser.plainText nfc content) raw) =
            fragmentOf (TextParser.plainText nfc content) raw ∧ Unpadded raw) →
      ∀ s ∈ SuggestionMapper.mapToSuggestions batch jobId documentId
        (TextParser.plainText nfc content) format, TextExporter.Applied nfc content s.toChange) ∧
    ((∀ content, Stable nfc content →
        ∀ s ∈ SuggestionMapper.mapToSuggestions batch jobId documentId
          (TextParser.plainText nfc content) format, TextExporter.Applied nfc content s.toChange) →
      ∀ content, Stable nfc content →
        ∀ raw ∈ batch, Kept (TextParser.plainText nfc content) format raw →
          normalizeText nfc (fragmentOf (TextParser.plainText nfc content) raw) =
            fragmentOf (TextParser.plainText nfc content) raw ∧ Unpadded raw) := by
  constructor
  · intro content hclean
    rw [forall_kept_iff]
    intro raw hraw hkept changeType htype
    obtain ⟨hfixed, hunpadded⟩ := hclean raw hraw hkept
    obtain ⟨hne, hin, changeType', htype', hbecomes⟩ := becomes_of_kept hkept
    obtain rfl : changeType' = changeType := Option.some.inj (htype'.symm.trans htype)
    exact hbecomes.applied hne hin hfixed hunpadded
  · intro hall content hstable raw hraw hkept
    have happlied : AppliedWhereKept nfc format raw :=
      fun content hstable => (forall_kept_iff _).mp (hall content hstable) raw hraw
    obtain ⟨hne, hin, changeType, htype, hbecomes⟩ := becomes_of_kept hkept
    have hfixed := hnfc.normalizeText_part hstable hin
    exact ⟨hfixed, hbecomes.unpadded hnfc hspaces hfixed hkept htype happlied
      (happlied content hstable hkept changeType htype)⟩

/-- Of the file `ab`, the old text `a` is replaced as it came. -/
theorem kept_change_applied :
    ∃ s ∈ SuggestionMapper.mapToSuggestions
        [⟨['t'], "modify", some ['a'], some ['c'], none, none, none⟩] (0, 0) (0, 1)
        (TextParser.plainText id ['a', 'b']) .txt,
      TextExporter.Applied id ['a', 'b'] s.toChange := by
  have hkept : SuggestionMapper.mapToSuggestions
      [⟨['t'], "modify", some ['a'], some ['c'], none, none, none⟩] (0, 0) (0, 1)
      (TextParser.plainText id ['a', 'b']) .txt =
      [{ analysisJobId := (0, 0), documentId := (0, 1), sectionRef := ['t'], changeType := .modify,
         originalText := some ['a'], suggestedText := some ['c'] }] := by
    decide
  have happlied := (kept_changes_applied ComposedForm.id SpacesStay.id
    [⟨['t'], "modify", some ['a'], some ['c'], none, none, none⟩] (0, 0) (0, 1) .txt).1 ['a', 'b']
    fun raw hraw _ => by
      rw [List.mem_singleton] at hraw
      rw [hraw]
      exact ⟨by decide, .inr ⟨by decide, fun _ => by decide⟩⟩
  rw [hkept] at happlied ⊢
  exact ⟨_, List.mem_singleton_self _, happlied _ (List.mem_singleton_self _)⟩

/-- A leading space of the old text is enough to lose a change: of the file `ab`, the model quotes
` a`; the mapper finds `a` and keeps the change, the exporter does not find ` a`. -/
theorem kept_change_not_applied :
    ¬ ∀ s ∈ SuggestionMapper.mapToSuggestions
        [⟨['t'], "modify", some [' ', 'a'], some ['c'], none, none, none⟩] (0, 0) (0, 1)
        (TextParser.plainText id ['a', 'b']) .txt,
      TextExporter.Applied id ['a', 'b'] s.toChange := by
  intro h
  have hkept : SuggestionMapper.mapToSuggestions
      [⟨['t'], "modify", some [' ', 'a'], some ['c'], none, none, none⟩] (0, 0) (0, 1)
      (TextParser.plainText id ['a', 'b']) .txt =
      [{ analysisJobId := (0, 0), documentId := (0, 1), sectionRef := ['t'], changeType := .modify,
         originalText := some [' ', 'a'], suggestedText := some ['c'] }] := by
    decide
  rw [hkept] at h
  obtain ⟨-, pre, post, -, heq, -⟩ := h _ (List.mem_singleton.mpr rfl)
  have hin : [' ', 'a'] <:+: ['a', 'b'] := ⟨pre, post, heq.symm⟩
  revert hin
  decide

/-! ## Docx -/

namespace DocxExporter

/-- The exporter places the addition as a new paragraph after the first paragraph that holds its
anchor. -/
def Placed (paragraphs : List Paragraph) (change : AppliedChange) : Prop :=
  exporterAnchor nfc change ≠ [] ∧ ∃ before paragraph after,
    paragraphs = before ++ paragraph :: after ∧
    exporterAnchor nfc change <:+: normalizeText nfc paragraph.text ∧
    applyChanges nfc paragraphs [change] =
      before ++ paragraph :: newParagraph (change.newText.getD []) :: after

/-- The loop of `_place_addition` stops at the first paragraph with the anchor, if there is one. -/
theorem insertAfter_of_mem (anchor new : Text) :
    ∀ {paragraphs : List Paragraph}, (∃ p ∈ paragraphs, anchor <:+: normalizeText nfc p.text) →
      ∃ before paragraph after, paragraphs = before ++ paragraph :: after ∧
        anchor <:+: normalizeText nfc paragraph.text ∧
        insertAfter nfc anchor new paragraphs =
          before ++ paragraph :: newParagraph new :: after
  | [], h => by simp at h
  | first :: rest, h => by
      by_cases hfirst : anchor <:+: normalizeText nfc first.text
      · exact ⟨[], first, rest, rfl, hfirst, by simp [insertAfter, hfirst]⟩
      · have hrest : ∃ p ∈ rest, anchor <:+: normalizeText nfc p.text := by
          obtain ⟨p, hp, hin⟩ := h
          rcases List.mem_cons.mp hp with rfl | hp
          · exact absurd hin hfirst
          · exact ⟨p, hp, hin⟩
        obtain ⟨before, paragraph, after, rfl, hin, heq⟩ := insertAfter_of_mem anchor new hrest
        exact ⟨first :: before, paragraph, after, rfl, hin, by simp [insertAfter, hfirst, heq]⟩

/-- An addition is placed iff its anchor is not empty and lies in one paragraph. -/
theorem placed_iff {paragraphs : List Paragraph} {old new : Option Text} (hnew : new.getD [] ≠ []) :
    Placed nfc paragraphs ⟨.add, old, new⟩ ↔
      exporterAnchor nfc ⟨.add, old, new⟩ ≠ [] ∧
        ∃ p ∈ paragraphs, exporterAnchor nfc ⟨.add, old, new⟩ <:+: normalizeText nfc p.text := by
  constructor
  · rintro ⟨hanchor, before, paragraph, after, rfl, hin, -⟩
    exact ⟨hanchor, paragraph, by simp, hin⟩
  · rintro ⟨hanchor, hex⟩
    obtain ⟨before, paragraph, after, heq, hin, hins⟩ :=
      insertAfter_of_mem nfc _ (new.getD []) hex
    refine ⟨hanchor, before, paragraph, after, heq, hin, ?_⟩
    unfold exporterAnchor at hanchor hins
    simpa only [applyChanges, List.foldl_cons, List.foldl_nil, applyChange, if_neg hnew,
      placeAddition, if_neg hanchor] using hins

end DocxExporter

/-- The additions of a non-empty text come from the items that add one. -/
theorem Becomes.adds {documentText : Text} {raw : LLMSuggestionItem} {change : AppliedChange}
    (h : Becomes documentText raw change) (hadd : change.changeType = .add)
    (hnew : change.newText.getD [] ≠ []) :
    Adds raw ∧ ∃ new, change = ⟨.add, some (fragmentOf documentText raw), new⟩ := by
  cases h with
  | add h => exact ⟨.inl ⟨h, hnew⟩, _, rfl⟩
  | tail h happends => exact ⟨.inr ⟨h, happends⟩, _, rfl⟩
  | modify | delete | blank => cases hadd

/-- An item that adds becomes an addition with its anchor. -/
theorem Becomes.of_adds {documentText : Text} {raw : LLMSuggestionItem} {change : AppliedChange}
    (h : Becomes documentText raw change) (hadds : Adds raw) :
    change.changeType = .add ∧ ∃ new : Option Text, new.getD [] ≠ [] ∧
      change = ⟨.add, some (fragmentOf documentText raw), new⟩ := by
  cases h with
  | add h =>
      rcases hadds with ⟨-, hnew⟩ | ⟨hmodify, -⟩
      · exact ⟨rfl, _, hnew, rfl⟩
      · exact absurd (h.symm.trans hmodify) (by decide)
  | tail h happends hne =>
      refine ⟨rfl, _, ?_, rfl⟩
      rintro hnil
      rw [Option.getD_some] at hnil
      exact hne (by rw [hnil]; rfl)
  | modify h happends =>
      rcases hadds with ⟨hadd, -⟩ | ⟨-, h'⟩
      · exact absurd (h.symm.trans hadd) (by decide)
      · exact absurd h' happends
  | delete h =>
      rcases hadds with ⟨hadd, -⟩ | ⟨hmodify, -⟩
      · exact absurd (h.symm.trans hadd) (by decide)
      · exact absurd (h.symm.trans hmodify) (by decide)
  | blank h hblank =>
      rcases hadds with ⟨hadd, -⟩ | ⟨-, h'⟩
      · exact absurd (h.symm.trans hadd) (by decide)
      · exact absurd h' (not_appendsTo_of_blank hblank)

/-- **Which kept additions the exporter of docx places.** A kept addition of a non-empty text is
placed, if its anchor is normalised and does not run over a line end. Of a file without line breaks
in its paragraphs, whose text a second normalisation leaves alone, no other addition is placed. -/
theorem kept_additions_placed {nfc : Text → Text} (hnfc : ComposedForm nfc)
    (paragraphs : List Paragraph) (batch : List LLMSuggestionItem) (jobId documentId : Uuid) :
    ((∀ raw ∈ batch, Kept (DocxParser.plainText nfc paragraphs) .docx raw → Adds raw →
        normalizeText nfc (fragmentOf (DocxParser.plainText nfc paragraphs) raw) =
            fragmentOf (DocxParser.plainText nfc paragraphs) raw ∧
          '\n' ∉ fragmentOf (DocxParser.plainText nfc paragraphs) raw) →
      ∀ s ∈ SuggestionMapper.mapToSuggestions batch jobId documentId
        (DocxParser.plainText nfc paragraphs) .docx,
        s.toChange.changeType = .add → s.toChange.newText.getD [] ≠ [] →
          DocxExporter.Placed nfc paragraphs s.toChange) ∧
    (normalizeText nfc (DocxParser.plainText nfc paragraphs) = DocxParser.plainText nfc paragraphs →
      (∀ p ∈ paragraphs, '\n' ∉ normalizeText nfc p.text) →
      (∀ s ∈ SuggestionMapper.mapToSuggestions batch jobId documentId
        (DocxParser.plainText nfc paragraphs) .docx,
        s.toChange.changeType = .add → s.toChange.newText.getD [] ≠ [] →
          DocxExporter.Placed nfc paragraphs s.toChange) →
      ∀ raw ∈ batch, Kept (DocxParser.plainText nfc paragraphs) .docx raw → Adds raw →
        normalizeText nfc (fragmentOf (DocxParser.plainText nfc paragraphs) raw) =
            fragmentOf (DocxParser.plainText nfc paragraphs) raw ∧
          '\n' ∉ fragmentOf (DocxParser.plainText nfc paragraphs) raw) := by
  rw [forall_kept_iff fun change => change.changeType = .add → change.newText.getD [] ≠ [] →
    DocxExporter.Placed nfc paragraphs change]
  constructor
  · intro hclean raw hraw hkept changeType htype hadd hnew
    obtain ⟨hne, hin, changeType', htype', hbecomes⟩ := becomes_of_kept hkept
    obtain rfl : changeType' = changeType := Option.some.inj (htype'.symm.trans htype)
    obtain ⟨hadds, old, hold⟩ := hbecomes.adds hadd hnew
    obtain ⟨hfixed, hline⟩ := hclean raw hraw hkept hadds
    rw [hold] at hnew ⊢
    rw [DocxExporter.placed_iff nfc hnew, exporterAnchor, Option.getD_some, hfixed, strip_fragmentOf]
    obtain ⟨piece, hpiece, hpin⟩ := (Strings.infix_intercalate_iff hne hline _).mp hin
    obtain ⟨p, hp, rfl⟩ := List.mem_map.mp hpiece
    exact ⟨hne, p, hp, hpin⟩
  · intro hstable hbreaks hall raw hraw hkept hadds
    obtain ⟨hne, hin, changeType, htype, hbecomes⟩ := becomes_of_kept hkept
    have hfixed := hnfc.normalizeText_part hstable hin
    refine ⟨hfixed, fun hline => ?_⟩
    obtain ⟨hadd, new, hnew, hchange⟩ := hbecomes.of_adds hadds
    have hplaced := hall raw hraw hkept changeType htype hadd
    rw [hchange] at hplaced
    obtain ⟨-, p, hp, hpin⟩ := (DocxExporter.placed_iff nfc hnew).mp (hplaced hnew)
    rw [exporterAnchor, Option.getD_some, hfixed, strip_fragmentOf] at hpin
    exact hbreaks p hp (hpin.subset hline)

/-- In the paragraphs `a` and `b`, a paragraph goes in after the anchor `a`. -/
theorem kept_addition_placed :
    ∃ s ∈ SuggestionMapper.mapToSuggestions
        [⟨['t'], "add", none, some ['c'], none, none, some ['a']⟩] (0, 0) (0, 1)
        (DocxParser.plainText id [⟨[.run ['a']]⟩, ⟨[.run ['b']]⟩]) .docx,
      DocxExporter.Placed id [⟨[.run ['a']]⟩, ⟨[.run ['b']]⟩] s.toChange := by
  have hkept : SuggestionMapper.mapToSuggestions
      [⟨['t'], "add", none, some ['c'], none, none, some ['a']⟩] (0, 0) (0, 1)
      (DocxParser.plainText id [⟨[.run ['a']]⟩, ⟨[.run ['b']]⟩]) .docx =
      [{ analysisJobId := (0, 0), documentId := (0, 1), sectionRef := ['t'], changeType := .add,
         originalText := some ['a'], suggestedText := some ['c'] }] := by
    decide
  have hplaced := (kept_additions_placed ComposedForm.id [⟨[.run ['a']]⟩, ⟨[.run ['b']]⟩]
    [⟨['t'], "add", none, some ['c'], none, none, some ['a']⟩] (0, 0) (0, 1)).1
    fun raw hraw _ _ => by
      rw [List.mem_singleton] at hraw
      rw [hraw]
      exact ⟨by decide, by decide⟩
  rw [hkept] at hplaced ⊢
  exact ⟨_, List.mem_singleton_self _, hplaced _ (List.mem_singleton_self _) rfl (by decide)⟩

/-- An anchor across a paragraph boundary is enough to lose an addition: the mapper finds `a`, a
line feed and `b` in the joined text of two paragraphs, the exporter finds it in neither. -/
theorem kept_addition_not_placed :
    ¬ ∀ s ∈ SuggestionMapper.mapToSuggestions
        [⟨['t'], "add", none, some ['c'], none, none, some ['a', '\n', 'b']⟩] (0, 0) (0, 1)
        (DocxParser.plainText id [⟨[.run ['a']]⟩, ⟨[.run ['b']]⟩]) .docx,
      s.toChange.changeType = .add → s.toChange.newText.getD [] ≠ [] →
        DocxExporter.Placed id [⟨[.run ['a']]⟩, ⟨[.run ['b']]⟩] s.toChange := by
  intro h
  have hkept : SuggestionMapper.mapToSuggestions
      [⟨['t'], "add", none, some ['c'], none, none, some ['a', '\n', 'b']⟩] (0, 0) (0, 1)
      (DocxParser.plainText id [⟨[.run ['a']]⟩, ⟨[.run ['b']]⟩]) .docx =
      [{ analysisJobId := (0, 0), documentId := (0, 1), sectionRef := ['t'], changeType := .add,
         originalText := some ['a', '\n', 'b'], suggestedText := some ['c'] }] := by
    decide
  rw [hkept] at h
  have hplaced := h _ (List.mem_singleton.mpr rfl) rfl (by decide)
  have hex := ((DocxExporter.placed_iff id (by decide)).mp hplaced).2
  revert hex
  decide

end

end SyncBack
