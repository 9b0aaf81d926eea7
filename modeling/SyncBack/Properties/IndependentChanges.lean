import SyncBack.Infrastructure.Exporters

/-!
# The order of independent changes

The exporter applies the accepted changes one after another, each by a search in the text that the
others have already changed. A text is cut at the fragments to replace, into slots: a gap and the
change of the fragment after it. `textOf` is the text when some of the changes have been made. When
the fragment of every change still to make occurs at its own place alone, whichever others have
been made (`Independent`), one change moves the text to that of one more mark
(`applyChange_slot`), and so every order of the changes ends at the same text.
-/

namespace SyncBack

/-- A change of a fragment that is not empty and that normalisation leaves alone. -/
def AppliedChange.IsRewrite (nfc : Text → Text) (change : AppliedChange) : Prop :=
  change.changeType ≠ .add ∧ change.old ≠ [] ∧ normalizeText nfc change.old = change.old

instance (nfc : Text → Text) (change : AppliedChange) : Decidable (change.IsRewrite nfc) :=
  inferInstanceAs (Decidable (_ ∧ _ ∧ _))

/-- A part of a text: what stands before the fragment of a change, and the change. -/
structure Slot where
  gap : Text
  change : AppliedChange

/-- The slot in the text, once its change has been made or before. -/
def Slot.text (slot : Slot) (made : Bool) : Text :=
  slot.gap ++ if made then slot.change.replacement else slot.change.old

/-- The text when the changes of the marked slots have been made; `last` is the gap at its end. -/
def textOf (marked : List (Slot × Bool)) (last : Text) : Text :=
  (marked.map fun m => m.1.text m.2).flatten ++ last

/-- Whichever changes have been made, the fragment of each other change occurs exactly once, at its
own place. -/
def Independent (slots : List Slot) (last : Text) : Prop :=
  ∀ (before after : List (Slot × Bool)) (slot : Slot),
    (before ++ (slot, false) :: after).map Prod.fst = slots →
    ∀ l r, textOf (before ++ (slot, false) :: after) last = l ++ slot.change.old ++ r →
      l = textOf before slot.gap

/-- The text around one change. -/
theorem textOf_append_cons (before after : List (Slot × Bool)) (slot : Slot) (made : Bool)
    (last : Text) :
    textOf (before ++ (slot, made) :: after) last =
      textOf before slot.gap ++ (if made then slot.change.replacement else slot.change.old) ++
        textOf after last := by
  simp [textOf, Slot.text]

section

variable {nfc : Text → Text}

/-- On a text with the fragment, the exporter replaces its first occurrence. -/
theorem TextExporter.applyChange_rewrite {change : AppliedChange} (h : change.IsRewrite nfc)
    (text : Text) :
    TextExporter.applyChange nfc text change =
      Strings.replaceFirst text change.old change.replacement := by
  obtain ⟨htype, hne, hfixed⟩ := h
  unfold AppliedChange.old at hne hfixed
  unfold TextExporter.applyChange AppliedChange.old AppliedChange.replacement
  rw [hfixed]
  cases hc : change.changeType with
  | add => exact absurd hc htype
  | modify => simp [hne]
  | delete => simp [hne]

/-- One change of the run: the slot is marked. -/
theorem applyChange_slot {slots : List Slot} {last : Text} (hind : Independent slots last)
    {before after : List (Slot × Bool)} {slot : Slot}
    (hslots : (before ++ (slot, false) :: after).map Prod.fst = slots)
    (hrewrite : slot.change.IsRewrite nfc) :
    TextExporter.applyChange nfc (textOf (before ++ (slot, false) :: after) last) slot.change =
      textOf (before ++ (slot, true) :: after) last := by
  have hunique := hind before after slot hslots
  rw [textOf_append_cons] at hunique ⊢
  rw [TextExporter.applyChange_rewrite hrewrite, textOf_append_cons]
  exact Strings.replaceFirst_of_unique _ hunique

/-- The changes still to make. -/
def toMake (marked : List (Slot × Bool)) : List AppliedChange :=
  (marked.filter fun m => !m.2).map fun m => m.1.change

/-- The rest of the run, from any set of changes made. -/
theorem applyChanges_marked {slots : List Slot} {last : Text} (hind : Independent slots last)
    (hrewrite : ∀ slot ∈ slots, slot.change.IsRewrite nfc) (order : List AppliedChange) :
    ∀ marked : List (Slot × Bool), marked.map Prod.fst = slots → order.Perm (toMake marked) →
      order.foldl (TextExporter.applyChange nfc) (textOf marked last) =
        textOf (slots.map fun slot => (slot, true)) last := by
  induction order with
  | nil =>
      intro marked hslots hperm
      have hmade : ∀ m ∈ marked, m.2 = true := by
        intro m hm
        by_contra hne
        have hmem : m.1.change ∈ toMake marked :=
          List.mem_map_of_mem (List.mem_filter.mpr ⟨hm, by simpa using hne⟩)
        rw [← hperm.mem_iff] at hmem
        cases hmem
      have hmarked : marked = slots.map fun slot => (slot, true) := by
        rw [← hslots, List.map_map]
        conv_lhs => rw [← List.map_id marked]
        exact List.map_congr_left fun m hm => Prod.ext rfl (hmade m hm)
      rw [← hmarked]
      rfl
  | cons change order ih =>
      intro marked hslots hperm
      -- the next change is the one of a slot without a mark
      obtain ⟨⟨slot, made⟩, hm, rfl⟩ := List.mem_map.mp (hperm.subset List.mem_cons_self)
      obtain ⟨hm, hmade⟩ := List.mem_filter.mp hm
      obtain rfl : made = false := by simpa using hmade
      obtain ⟨before, after, rfl⟩ := List.append_of_mem hm
      have hslot : slot ∈ slots := hslots ▸ by simp
      rw [List.foldl_cons, applyChange_slot hind hslots (hrewrite slot hslot)]
      refine ih _ (by rw [← hslots]; simp) (List.Perm.cons_inv (a := slot.change) ?_)
      refine hperm.trans ?_
      simp [toMake, List.perm_middle]

/-- **The order of independent changes does not matter**: each fragment is replaced at its own
place. -/
theorem independent_changes_commute {content : Text} {slots : List Slot} {last : Text}
    (hcontent : normalizeText nfc content = textOf (slots.map fun slot => (slot, false)) last)
    (hrewrite : ∀ slot ∈ slots, slot.change.IsRewrite nfc) (hind : Independent slots last)
    {order : List AppliedChange} (horder : order.Perm (slots.map Slot.change)) :
    TextExporter.applyChanges nfc content order =
      (slots.map fun slot => slot.gap ++ slot.change.replacement).flatten ++ last := by
  have htoMake : toMake (slots.map fun slot => (slot, false)) = slots.map Slot.change := by
    simp [toMake, List.filter_map, Function.comp_def]
  rw [TextExporter.applyChanges, hcontent,
    applyChanges_marked hind hrewrite order _ (by simp [Function.comp_def]) (htoMake ▸ horder)]
  simp [textOf, Slot.text, Function.comp_def]

end

/-! ## Two changes of one line -/

/-- `a b`, where the first letter is replaced and the second one is deleted. -/
def twoLetters : List Slot :=
  [{ gap := [], change := { changeType := .modify, oldText := some ['a'], newText := some ['c'] } },
    { gap := [' '], change := { changeType := .delete, oldText := some ['b'], newText := none } }]

/-- The changes of the two letters are independent. -/
theorem independent_twoLetters : Independent twoLetters [] := by
  rintro (_ | ⟨⟨first, made⟩, before⟩) after slot hslots l r h
  · -- the first letter is still there, the second one or not
    obtain ⟨rfl, hafter⟩ := List.cons.inj hslots
    obtain ⟨⟨second, made⟩, rfl, rfl⟩ := List.map_eq_singleton_iff.mp hafter
    rcases l with _ | ⟨x, _ | ⟨y, _ | ⟨z, l⟩⟩⟩
    · rfl
    all_goals cases made <;> revert h <;> simp [textOf, Slot.text, AppliedChange.old,
      AppliedChange.replacement]
  · obtain ⟨rfl, hrest⟩ := List.cons.inj hslots
    obtain ⟨m, hm, hslot⟩ := List.map_eq_singleton_iff.mp hrest
    rcases before with _ | ⟨m', before⟩
    · obtain ⟨rfl, rfl⟩ := List.cons.inj hm
      subst hslot
      rcases l with _ | ⟨x, _ | ⟨y, _ | ⟨z, l⟩⟩⟩ <;> cases made <;>
        simp [textOf, Slot.text, AppliedChange.old, AppliedChange.replacement] at h ⊢ <;>
        exact ⟨h.1.symm, h.2.1.symm⟩
    · simp at hm

/-- The deletion comes first. -/
theorem two_letters_changed :
    TextExporter.applyChanges id "a b".toList
      [{ changeType := .delete, oldText := some ['b'], newText := none },
        { changeType := .modify, oldText := some ['a'], newText := some ['c'] }] = "c ".toList :=
  @independent_changes_commute id _ _ _ (by decide) (by decide) independent_twoLetters _
    (.swap _ _ [])

end SyncBack
