import Mathlib.Data.List.Basic

/-!
# Header values with parameters

A header value such as that of `Content-Disposition` is cut into parts at the semicolons that stand
outside of quoted strings. In a quoted string a backslash takes the next character with it. `parts`
reads a value character by character; `parts_append` says of a stretch of text that it belongs to
one part.
-/

namespace HeaderValue

/-- Where a character stands. -/
inductive Mode where
  | plain
  | quoted
  | escaped
  deriving DecidableEq

/-- The mode after a character. -/
def Mode.next : Mode → Char → Mode
  | .plain, c => if c = '"' then .quoted else .plain
  | .quoted, c => if c = '"' then .plain else if c = '\\' then .escaped else .quoted
  | .escaped, _ => .quoted

/-- The parts of a value. -/
def parts : Mode → List Char → List (List Char)
  | _, [] => [[]]
  | mode, c :: rest =>
      if mode = .plain ∧ c = ';' then [] :: parts .plain rest
      else (parts (mode.next c) rest).modifyHead (c :: ·)

/-- A character that neither ends a part nor changes the mode. -/
def Calm (mode : Mode) (c : Char) : Prop := mode.next c = mode ∧ ¬ (mode = .plain ∧ c = ';')

/-- Outside of quotes a character is calm, unless it opens one or ends the part. -/
theorem calm_plain {c : Char} (hquote : c ≠ '"') (hsemicolon : c ≠ ';') : Calm .plain c :=
  ⟨if_neg hquote, fun h => hsemicolon h.2⟩

/-- Inside of quotes it is, unless it closes them or escapes. -/
theorem calm_quoted {c : Char} (hquote : c ≠ '"') (hbackslash : c ≠ '\\') : Calm .quoted c := by
  refine ⟨?_, fun h => nomatch h.1⟩
  rw [Mode.next, if_neg hquote, if_neg hbackslash]

/-- A semicolon ends the part. -/
@[simp] theorem parts_semicolon (rest : List Char) :
    parts .plain (';' :: rest) = [] :: parts .plain rest := if_pos ⟨rfl, rfl⟩

/-- A quotation mark opens a quoted string. -/
@[simp] theorem parts_open (rest : List Char) :
    parts .plain ('"' :: rest) = (parts .quoted rest).modifyHead ('"' :: ·) :=
  if_neg fun h => nomatch h.2

/-- Another one closes it. -/
@[simp] theorem parts_close (rest : List Char) :
    parts .quoted ('"' :: rest) = (parts .plain rest).modifyHead ('"' :: ·) :=
  if_neg fun h => nomatch h.1

/-- **A calm stretch of text belongs to one part.** -/
theorem parts_append {mode : Mode} {text : List Char} (h : ∀ c ∈ text, Calm mode c)
    (rest : List Char) :
    parts mode (text ++ rest) = (parts mode rest).modifyHead (text ++ ·) := by
  induction text with
  | nil =>
      rw [List.nil_append]
      cases parts mode rest <;> rfl
  | cons c text ih =>
      obtain ⟨hnext, hnot⟩ := h c List.mem_cons_self
      rw [List.cons_append, parts, if_neg hnot, hnext,
        ih fun d hd => h d (List.mem_cons_of_mem c hd), List.modifyHead_modifyHead]
      rfl

/-- A value that is calm to its end is one part. -/
theorem parts_of_calm {mode : Mode} {text : List Char} (h : ∀ c ∈ text, Calm mode c) :
    parts mode text = [text] := by
  have hparts := parts_append h []
  rw [List.append_nil] at hparts
  rw [hparts, parts, List.modifyHead_cons, List.append_nil]

end HeaderValue
