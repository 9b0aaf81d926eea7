import Mathlib.Data.List.Basic
import Mathlib.Data.List.Infix
import SyncBack.Strings.Lines

/-!
# Names and suffixes of paths

Pure paths, over any alphabet with a separator `sep` and a `dot`: the components of a path are its
pieces between separators, without the empty ones and the single dots; the name is the last of
them, and the suffix begins at the last dot of the name, which is neither its first nor its last
character.
-/

namespace Strings

variable {α : Type} [DecidableEq α]

/-- `text.rfind(c)`: the last position of a character. -/
def rfind (c : α) : List α → Option ℕ
  | [] => none
  | d :: rest =>
      match rfind c rest with
      | some i => some (i + 1)
      | none => if d = c then some 0 else none

/-- Nothing is found from the right where it does not occur. -/
theorem rfind_eq_none_iff {c : α} : ∀ {text : List α}, rfind c text = none ↔ c ∉ text
  | [] => by simp [rfind]
  | d :: rest => by
      have ih : rfind c rest = none ↔ c ∉ rest := rfind_eq_none_iff
      rw [rfind, List.mem_cons, not_or]
      cases h : rfind c rest with
      | some i =>
          have : ¬ c ∉ rest := fun hc => by
            rw [ih.mpr hc] at h
            cases h
          simp [this]
      | none => simp [ih.mp h, eq_comm]

/-- The last occurrence is found. -/
theorem rfind_append_cons {c : α} {front back : List α} (h : c ∉ back) :
    rfind c (front ++ c :: back) = some front.length := by
  induction front with
  | nil => simp [rfind, rfind_eq_none_iff.mpr h]
  | cons d front ih => simp [rfind, ih]

/-- What is found is the last occurrence. -/
theorem exists_of_rfind {c : α} {i : ℕ} :
    ∀ {text : List α}, rfind c text = some i →
      ∃ front back, text = front ++ c :: back ∧ c ∉ back ∧ front.length = i
  | d :: rest, h => by
      rw [rfind] at h
      cases hrest : rfind c rest with
      | some j =>
          obtain ⟨front, back, rfl, hback, rfl⟩ := exists_of_rfind hrest
          rw [hrest] at h
          exact ⟨d :: front, back, rfl, hback, Option.some.inj h⟩
      | none =>
          rw [hrest] at h
          by_cases hd : d = c
          · rw [if_pos hd] at h
            exact ⟨[], rest, by rw [hd]; rfl, rfind_eq_none_iff.mp hrest, Option.some.inj h⟩
          · rw [if_neg hd] at h
            cases h

namespace PurePath

variable (sep dot : α)

/-- The parts of a path. -/
def components (path : List α) : List (List α) :=
  (path.splitOn sep).filter fun piece => piece ≠ [] ∧ piece ≠ [dot]

/-- `PurePath.name`. -/
def name (path : List α) : List α := ((components sep dot path).getLast?).getD []

/-- `PurePath.suffix`. -/
def suffix (path : List α) : List α :=
  let name := name sep dot path
  match rfind dot name with
  | none => []
  | some i => if 0 < i ∧ i < name.length - 1 then name.drop i else []

variable {sep dot}

/-! ## Components -/

/-- The components of two paths. -/
theorem components_append_sep (front back : List α) :
    components sep dot (front ++ sep :: back) =
      components sep dot front ++ components sep dot back := by
  unfold components
  rw [List.splitOn_append_cons_self, List.filter_append]

/-- A piece is its only component. -/
theorem components_eq_singleton {piece : List α} (hsep : sep ∉ piece) (hne : piece ≠ [])
    (hdot : piece ≠ [dot]) : components sep dot piece = [piece] := by
  unfold components
  rw [List.splitOn_eq_singleton hsep]
  simp [hne, hdot]

/-- What a function that splits a path at its separators makes of its pieces. -/
theorem flatMap_splitOn {β : Type} {g : List α → List β}
    (hg : ∀ front back, g (front ++ sep :: back) = g front ++ g back) (path : List α) :
    (path.splitOn sep).flatMap g = g path := by
  have hpieces : ∀ pieces : List (List α), pieces ≠ [] →
      pieces.flatMap g = g ([sep].intercalate pieces) := by
    intro pieces hne
    induction pieces with
    | nil => exact absurd rfl hne
    | cons piece pieces ih =>
        cases pieces with
        | nil => simp
        | cons piece' pieces =>
            rw [List.flatMap_cons, ih (List.cons_ne_nil _ _), List.intercalate_cons_cons,
              List.append_assoc, List.singleton_append, hg]
  rw [hpieces _ (List.splitOn_ne_nil sep path), List.intercalate_splitOn]

/-- Elements with nothing to give may be left out. -/
theorem flatMap_filter_of_nil {β γ : Type} {g : β → List γ} {p : β → Bool} :
    ∀ {l : List β}, (∀ x ∈ l, p x = false → g x = []) → (l.filter p).flatMap g = l.flatMap g
  | [], _ => rfl
  | x :: l, h => by
      have ih := flatMap_filter_of_nil fun y hy => h y (List.mem_cons_of_mem x hy)
      cases hx : p x with
      | true => rw [List.filter_cons_of_pos hx, List.flatMap_cons, List.flatMap_cons, ih]
      | false =>
          rw [List.filter_cons_of_neg (by simp [hx]), List.flatMap_cons,
            h x List.mem_cons_self hx, List.nil_append, ih]

/-- Renaming the characters of a path splits its components further and joins none. -/
theorem components_map {f : α → α} (hsep : f sep = sep) (hdot : f dot = dot) (path : List α) :
    components sep dot (path.map f) =
      (components sep dot path).flatMap fun piece => components sep dot (piece.map f) := by
  have hg : ∀ front back, components sep dot ((front ++ sep :: back).map f) =
      components sep dot (front.map f) ++ components sep dot (back.map f) := by
    intro front back
    rw [List.map_append, List.map_cons, hsep, components_append_sep]
  have hnil : components sep dot [] = [] := by simp [components]
  rw [← flatMap_splitOn (g := fun piece => components sep dot (piece.map f)) hg]
  refine (flatMap_filter_of_nil fun piece _ hpiece => ?_).symm
  rw [decide_eq_false_iff_not, not_and_or, not_ne_iff, not_ne_iff] at hpiece
  rcases hpiece with rfl | rfl
  · exact hnil
  · simp only [List.map_cons, List.map_nil, hdot]
    unfold components
    by_cases h : dot = sep
    · simp [h, List.splitOn_cons_eq_if_modifyHead]
    · simp [List.splitOn_eq_singleton (show sep ∉ [dot] by simpa [eq_comm] using h)]

/-! ## The name -/

/-- A component has no separator, and is neither empty nor a dot. -/
theorem mem_components {path piece : List α} (h : piece ∈ components sep dot path) :
    sep ∉ piece ∧ piece ≠ [] ∧ piece ≠ [dot] := by
  obtain ⟨hmem, hne⟩ := List.mem_filter.mp h
  exact ⟨not_mem_of_mem_splitOn hmem, of_decide_eq_true hne⟩

/-- A path without components has no name. -/
theorem name_eq_nil_iff {path : List α} : name sep dot path = [] ↔ components sep dot path = [] := by
  unfold name
  constructor
  · intro h
    by_contra hne
    obtain ⟨last, hlast⟩ := List.getLast?_isSome.mpr hne |> Option.isSome_iff_exists.mp
    rw [hlast, Option.getD_some] at h
    exact (mem_components (List.mem_of_getLast? hlast)).2.1 h
  · intro h
    rw [h]
    rfl

/-- The name is the last component. -/
theorem components_eq_concat {path : List α} (h : name sep dot path ≠ []) :
    ∃ init, components sep dot path = init ++ [name sep dot path] := by
  obtain ⟨init, last, hlast⟩ :=
    (List.eq_nil_or_concat (components sep dot path)).resolve_left (mt name_eq_nil_iff.mpr h)
  refine ⟨init, ?_⟩
  rw [name, hlast, List.concat_eq_append, List.getLast?_concat]
  rfl

/-- The last component is the name. -/
theorem name_of_components {path : List α} {init : List (List α)} {last : List α}
    (h : components sep dot path = init ++ [last]) : name sep dot path = last := by
  rw [name, h, List.getLast?_concat]
  rfl

/-- A name has no separator and is no dot. -/
theorem name_mem {path : List α} (h : name sep dot path ≠ []) :
    sep ∉ name sep dot path ∧ name sep dot path ≠ [dot] := by
  obtain ⟨init, hinit⟩ := components_eq_concat h
  have hmem : name sep dot path ∈ components sep dot path := by
    rw [hinit]
    exact List.mem_append_right _ (List.mem_singleton_self _)
  exact ⟨(mem_components hmem).1, (mem_components hmem).2.2⟩

/-- A piece behind a separator is the name. -/
theorem name_append_sep (front : List α) {piece : List α} (hsep : sep ∉ piece) (hne : piece ≠ [])
    (hdot : piece ≠ [dot]) : name sep dot (front ++ sep :: piece) = piece := by
  refine @name_of_components _ _ _ _ _ (components sep dot front) _ ?_
  rw [components_append_sep, components_eq_singleton hsep hne hdot]

/-- After a renaming the name is found within what was the name. -/
theorem name_map {f : α → α} (hsep : f sep = sep) (hdot : f dot = dot) {path last : List α}
    {init : List (List α)}
    (h : components sep dot ((name sep dot path).map f) = init ++ [last]) :
    name sep dot (path.map f) = last := by
  have hne : name sep dot path ≠ [] := by
    intro hnil
    rw [hnil] at h
    simp [components] at h
  obtain ⟨init', hinit'⟩ := components_eq_concat hne
  have hcomponents := components_map hsep hdot path
  rw [hinit', List.flatMap_append, List.flatMap_singleton, h, ← List.append_assoc] at hcomponents
  exact name_of_components hcomponents

/-- The name is its own name. -/
theorem name_name (path : List α) : name sep dot (name sep dot path) = name sep dot path := by
  by_cases h : name sep dot path = []
  · rw [h]
    rfl
  · obtain ⟨hsep, hdot⟩ := name_mem h
    exact @name_of_components _ _ _ _ _ [] _ (components_eq_singleton hsep h hdot)

/-! ## The suffix -/

/-- The name has the suffix of the path. -/
theorem suffix_name (path : List α) : suffix sep dot (name sep dot path) = suffix sep dot path := by
  simp only [suffix, name_name]

/-- The suffix of a name `stem.ext`. -/
theorem suffix_of_name {path stem ext : List α} (h : name sep dot path = stem ++ dot :: ext)
    (hext : dot ∉ ext) (hne : ext ≠ []) :
    suffix sep dot path = if stem = [] then [] else dot :: ext := by
  have hlen : 0 < ext.length := List.length_pos_iff.mpr hne
  simp only [suffix, h, rfind_append_cons hext]
  by_cases hstem : stem = []
  · simp [hstem]
  · have hpos : 0 < stem.length := List.length_pos_iff.mpr hstem
    have hin : 0 < stem.length ∧ stem.length < (stem ++ dot :: ext).length - 1 := by
      simp only [List.length_append, List.length_cons]
      omega
    rw [if_pos hin, if_neg hstem, List.drop_left]

/-- A name without a dot has no suffix. -/
theorem suffix_eq_nil {path : List α} (h : dot ∉ name sep dot path) : suffix sep dot path = [] := by
  simp only [suffix, rfind_eq_none_iff.mpr h]

/-- A suffix is what follows the last dot of the name, with the dot. -/
theorem exists_stem_of_suffix {path : List α} (h : suffix sep dot path ≠ []) :
    ∃ stem ext, name sep dot path = stem ++ dot :: ext ∧ suffix sep dot path = dot :: ext ∧
      dot ∉ ext ∧ stem ≠ [] ∧ ext ≠ [] := by
  cases hi : rfind dot (name sep dot path) with
  | none => exact absurd (by simp only [suffix, hi]) h
  | some i =>
      obtain ⟨stem, ext, hname, hext, rfl⟩ := exists_of_rfind hi
      by_cases hin : 0 < stem.length ∧ stem.length < (name sep dot path).length - 1
      · have hstem : stem ≠ [] := List.length_pos_iff.mp hin.1
        have hne : ext ≠ [] := by
          rintro rfl
          have := hin.2
          simp [hname] at this
        exact ⟨stem, ext, hname, by rw [suffix_of_name hname hext hne, if_neg hstem], hext, hstem,
          hne⟩
      · exact absurd (by simp only [suffix, hi, if_neg hin]) h

end PurePath

end Strings
