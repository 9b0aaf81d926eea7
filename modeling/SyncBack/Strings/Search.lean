import Mathlib.Data.List.Basic
import Mathlib.Data.List.DropRight
import Mathlib.Data.List.Infix

/-!
# Searching, replacing and stripping

The string operations that programs use to find a fragment in a text, over lists of any alphabet:

* `find`, `replaceFirst` — the first occurrence, as the split that `List.dropInfix?` returns;
* `strip p` — both ends without the characters of `p`, with the two ends that were taken off,
  `lead` and `trail`;
* a fragment without the separator occurs in joined pieces iff it occurs in one of them.
-/

set_option linter.unusedSectionVars false

namespace Strings

variable {α : Type} [DecidableEq α]

/-- A property of the members of a list, checked one after another. -/
theorem forall_of_all {p : α → Prop} [DecidablePred p] {l : List α}
    (h : (l.all fun c => decide (p c)) = true) : ∀ c ∈ l, p c := by
  simpa using h

/-! ## The first occurrence -/

/-- The text around what was cut out. -/
theorem eq_append_of_dropInfix? {text sub pre post : List α}
    (h : text.dropInfix? sub = some (pre, post)) : text = pre ++ sub ++ post := by
  obtain ⟨⟨i, hi, hbeq⟩, -⟩ := List.dropInfix?_eq_some_iff.mp h
  rw [hi, eq_of_beq hbeq]

/-- Something is cut out if it occurs. -/
theorem dropInfix?_isSome_iff {text sub : List α} :
    (text.dropInfix? sub).isSome ↔ sub <:+: text := by
  constructor
  · intro h
    obtain ⟨⟨pre, post⟩, hp⟩ := Option.isSome_iff_exists.mp h
    exact ⟨pre, post, (eq_append_of_dropInfix? hp).symm⟩
  · intro h
    by_contra hn
    have hnone : ∀ n, ∀ pre post : List α, pre.length = n → text ≠ pre ++ sub ++ post := by
      intro n
      induction n using Nat.strong_induction_on with
      | h n ih =>
          rintro pre post rfl heq
          have hmin : text.dropInfix? sub = some (pre, post) :=
            List.dropInfix?_eq_some_iff.mpr ⟨⟨sub, heq, BEq.rfl⟩, fun p' i' s' hl hi' => by
              rw [eq_of_beq hi'] at hl
              by_contra hlt
              exact ih p'.length (by omega) p' s' rfl hl⟩
          exact hn (by rw [hmin]; rfl)
    obtain ⟨pre, post, heq⟩ := h
    exact hnone _ pre post rfl heq.symm

/-- `text.find(sub)`: the start of the first occurrence. -/
def find (text sub : List α) : Option ℕ := (text.dropInfix? sub).map (·.1.length)

/-- `text.replace(old, new, 1)`: the first occurrence alone. -/
def replaceFirst (text old new : List α) : List α :=
  match text.dropInfix? old with
  | some (pre, post) => pre ++ new ++ post
  | none => text

/-- Something is found if it occurs. -/
theorem find_isSome_iff {text sub : List α} : (find text sub).isSome ↔ sub <:+: text := by
  rw [find, Option.isSome_map, dropInfix?_isSome_iff]

/-- The first occurrence is replaced. -/
theorem replaceFirst_of_infix {text old : List α} (new : List α) (h : old <:+: text) :
    ∃ pre post, text = pre ++ old ++ post ∧ replaceFirst text old new = pre ++ new ++ post := by
  obtain ⟨⟨pre, post⟩, hp⟩ := Option.isSome_iff_exists.mp (dropInfix?_isSome_iff.mpr h)
  exact ⟨pre, post, eq_append_of_dropInfix? hp, by simp [replaceFirst, hp]⟩

/-- The first occurrence of a fragment, with what stands before and after it. -/
def IsFirst (text sub pre post : List α) : Prop :=
  text = pre ++ sub ++ post ∧ ∀ l r, text = l ++ sub ++ r → pre.length ≤ l.length

/-- What is cut out is the first occurrence. -/
theorem dropInfix?_eq_some_iff_isFirst {text sub pre post : List α} :
    text.dropInfix? sub = some (pre, post) ↔ IsFirst text sub pre post := by
  rw [List.dropInfix?_eq_some_iff]
  constructor
  · rintro ⟨⟨i, hi, hbeq⟩, hmin⟩
    obtain rfl := eq_of_beq hbeq
    exact ⟨hi, fun l r heq => hmin l i r heq BEq.rfl⟩
  · rintro ⟨heq, hmin⟩
    refine ⟨⟨sub, heq, BEq.rfl⟩, fun l i r hl hi => hmin l r ?_⟩
    rw [hl, eq_of_beq hi]

/-- What occurs has a first occurrence. -/
theorem exists_isFirst {text sub : List α} (h : sub <:+: text) :
    ∃ pre post, IsFirst text sub pre post := by
  obtain ⟨⟨pre, post⟩, hp⟩ := Option.isSome_iff_exists.mp (dropInfix?_isSome_iff.mpr h)
  exact ⟨pre, post, dropInfix?_eq_some_iff_isFirst.mp hp⟩

/-- It is found there. -/
theorem IsFirst.find_eq {text sub pre post : List α} (h : IsFirst text sub pre post) :
    find text sub = some pre.length := by
  rw [find, dropInfix?_eq_some_iff_isFirst.mpr h, Option.map_some]

/-- It is replaced there. -/
theorem IsFirst.replaceFirst_eq {text sub pre post : List α} (h : IsFirst text sub pre post)
    (new : List α) : replaceFirst text sub new = pre ++ new ++ post := by
  rw [replaceFirst, dropInfix?_eq_some_iff_isFirst.mpr h]

/-- Nothing is found where it does not occur. -/
theorem find_eq_none_iff {text sub : List α} : find text sub = none ↔ ¬ sub <:+: text := by
  rw [← find_isSome_iff, Option.not_isSome_iff_eq_none]

/-- A fragment that occurs at one place alone is replaced there. -/
theorem replaceFirst_of_unique {pre old post : List α} (new : List α)
    (h : ∀ l r, pre ++ old ++ post = l ++ old ++ r → l = pre) :
    replaceFirst (pre ++ old ++ post) old new = pre ++ new ++ post := by
  obtain ⟨l, r, heq, hreplaced⟩ := replaceFirst_of_infix new (⟨pre, post, rfl⟩ : old <:+: _)
  obtain rfl := h l r heq
  rw [hreplaced, List.append_cancel_left heq]

/-! ## Stripping -/

section strip

variable (p : α → Bool)

/-- Both ends without the characters of `p`. -/
def strip (l : List α) : List α := (l.dropWhile p).rdropWhile p

/-- What `strip` takes off at the start. -/
def lead (l : List α) : List α := l.takeWhile p

/-- What `strip` takes off at the end. -/
def trail (l : List α) : List α := (l.dropWhile p).rtakeWhile p

/-- A text is what was stripped off and what is left. -/
theorem lead_strip_trail (l : List α) : lead p l ++ (strip p l ++ trail p l) = l := by
  unfold lead strip trail
  rw [List.rdropWhile_append_rtakeWhile, List.takeWhile_append_dropWhile]

/-- What is left occurs in the text. -/
theorem strip_infix (l : List α) : strip p l <:+: l :=
  ⟨lead p l, trail p l, by rw [List.append_assoc, lead_strip_trail]⟩

/-- Nothing is left of a text of such characters. -/
theorem strip_eq_nil_iff (l : List α) : strip p l = [] ↔ ∀ x ∈ l, p x = true := by
  unfold strip
  rw [List.rdropWhile_eq_nil_iff]
  constructor
  · intro h x hx
    rw [← List.takeWhile_append_dropWhile (p := p) (l := l), List.mem_append] at hx
    rcases hx with hx | hx
    · exact List.mem_takeWhile_imp hx
    · exact h x hx
  · intro h x hx
    exact h x ((List.dropWhile_sublist p).subset hx)

/-- Characters of `p` at the start are not seen. -/
theorem strip_append_of_all {l : List α} {pre : List α} (h : ∀ x ∈ pre, p x = true) :
    strip p (pre ++ l) = strip p l := by
  rw [strip, List.dropWhile_append_of_pos h, strip]

/-- The first character of a stripped text is kept by `strip`. -/
theorem head_strip {l : List α} (h : strip p l ≠ []) : p ((strip p l).head h) = false := by
  obtain ⟨tail, htail⟩ : strip p l <+: l.dropWhile p := List.rdropWhile_prefix _ _
  have hne : l.dropWhile p ≠ [] := htail ▸ List.append_ne_nil_of_left_ne_nil h tail
  have hnot := List.head_dropWhile_not (p := p) (l := l) hne
  simpa [← htail, List.head_append_of_ne_nil h] using hnot

/-- So is the last one. -/
theorem getLast_strip {l : List α} (h : strip p l ≠ []) : p ((strip p l).getLast h) = false := by
  rw [← Bool.not_eq_true]
  exact List.rdropWhile_last_not p (l.dropWhile p) h

/-- A text that neither begins nor ends with one is left as it is. -/
theorem strip_of_head_getLast {l : List α} (h : l ≠ []) (hhead : p (l.head h) = false)
    (hlast : p (l.getLast h) = false) : strip p l = l := by
  have hdrop : l.dropWhile p = l := by
    obtain ⟨c, rest, rfl⟩ := List.exists_cons_of_ne_nil h
    rw [List.dropWhile_cons_of_neg (by simpa using hhead)]
  rw [strip, hdrop, List.rdropWhile_eq_self_iff]
  intro _
  simpa using hlast

/-- Stripping twice is stripping once. -/
theorem strip_strip (l : List α) : strip p (strip p l) = strip p l := by
  by_cases h : strip p l = []
  · rw [h]
    rfl
  · exact strip_of_head_getLast p h (head_strip p h) (getLast_strip p h)

end strip

/-! ## Joined pieces -/

/-- An occurrence of a fragment without the separator lies on one side of it. -/
theorem occurrence_append_cons {sub a b l r : List α} {sep : α} (hne : sub ≠ []) (hsep : sep ∉ sub)
    (h : a ++ sep :: b = l ++ sub ++ r) :
    (∃ r', a = l ++ sub ++ r' ∧ r = r' ++ sep :: b) ∨ ∃ l', l = a ++ sep :: l' ∧ b = l' ++ sub ++ r := by
  rw [List.append_assoc, List.append_eq_append_iff] at h
  rcases h with ⟨l', rfl, h⟩ | ⟨r', rfl, h⟩
  · rcases List.cons_eq_append_iff.mp h with ⟨rfl, h⟩ | ⟨l', rfl, h⟩
    · obtain ⟨c, sub, rfl⟩ := List.exists_cons_of_ne_nil hne
      exact absurd ((List.cons.inj h).1 ▸ List.mem_cons_self) hsep
    · rename_i hb
      exact .inr ⟨l', rfl, by rw [hb, List.append_assoc]⟩
  · rw [List.append_eq_append_iff] at h
    rcases h with ⟨r', rfl, h⟩ | ⟨c, rfl, h⟩
    · exact .inl ⟨r', by rw [List.append_assoc], h⟩
    · rcases List.cons_eq_append_iff.mp h with ⟨rfl, rfl⟩ | ⟨d, rfl, -⟩
      · exact .inl ⟨[], by simp, by simp⟩
      · simp at hsep

/-- A fragment without the separator lies on one side of it. -/
theorem infix_append_cons_iff {sub l r : List α} {sep : α} (hsep : sep ∉ sub) :
    sub <:+: l ++ sep :: r ↔ sub <:+: l ∨ sub <:+: r := by
  by_cases hne : sub = []
  · simp [hne]
  constructor
  · rintro ⟨pre, post, h⟩
    rcases occurrence_append_cons hne hsep h.symm with ⟨post', heq, -⟩ | ⟨pre', -, heq⟩
    · exact .inl ⟨pre, post', heq.symm⟩
    · exact .inr ⟨pre', post, heq.symm⟩
  · rintro (⟨pre, post, rfl⟩ | ⟨pre, post, rfl⟩)
    · exact ⟨pre, post ++ sep :: r, by simp⟩
    · exact ⟨l ++ sep :: pre, post, by simp⟩

/-- A non-empty fragment without the separator occurs in the joined pieces iff it occurs in a
piece. -/
theorem infix_intercalate_iff {sub : List α} {sep : α} (hne : sub ≠ []) (hsep : sep ∉ sub) :
    ∀ pieces : List (List α),
      sub <:+: [sep].intercalate pieces ↔ ∃ piece ∈ pieces, sub <:+: piece
  | [] => by simp [List.infix_nil, hne]
  | [piece] => by simp
  | piece :: piece' :: rest => by
      rw [List.intercalate_cons_cons, List.append_assoc, List.singleton_append,
        infix_append_cons_iff hsep, infix_intercalate_iff hne hsep (piece' :: rest)]
      simp [List.mem_cons]

/-- A piece occurs in the joined pieces. -/
theorem infix_intercalate_of_mem {sep : α} {piece : List α} :
    ∀ {pieces : List (List α)}, piece ∈ pieces → piece <:+: [sep].intercalate pieces
  | [_], h => by
      rw [List.mem_singleton.mp h, List.intercalate_singleton]
  | first :: second :: rest, h => by
      rw [List.intercalate_cons_cons]
      rcases List.mem_cons.mp h with rfl | h
      · exact ⟨[], [sep] ++ [sep].intercalate (second :: rest), by simp⟩
      · exact (infix_intercalate_of_mem h).trans (List.suffix_append _ _).isInfix

end Strings
