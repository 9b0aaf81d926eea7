import SyncBack.Domain.Entities
import SyncBack.Strings.PurePath

/-!
# Names of uploaded files and keys of the storage

The name of an uploaded file comes from the user: only its extension gets into the key of the
object, and only when it looks like one. `str.lower` is a table of the Unicode standard and stands
as the parameter `lower`.

Source: `app/domain/storage_keys.py`.
-/

namespace SyncBack

open Strings

/-- `PurePosixPath(path).name`. -/
def pathName (path : Text) : Text := PurePath.name '/' '.' path

/-- `PurePosixPath(path).suffix`. -/
def pathSuffix (path : Text) : Text := PurePath.suffix '/' '.' path

/-- Source: `_EXTENSION_RE`, `^\.[a-z0-9]{1,10}$`; the `$` also matches before a line feed at the
end. -/
def extensionRe (suffix : Text) : Bool :=
  match suffix with
  | '.' :: rest =>
      let body := if rest.getLast? = some '\n' then rest.dropLast else rest
      1 ≤ body.length && body.length ≤ 10 && body.all fun c => c.isLower || c.isDigit
  | _ => false

/-- `filename.replace("\\", "/")`. -/
def replaceBackslashes (filename : Text) : Text :=
  filename.map fun c => if c = '\\' then '/' else c

section

variable (lower : Text → Text)

/-- Source: `file_extension`. -/
def fileExtension (filename : Text) : Text :=
  let name := pathName (replaceBackslashes filename)
  let suffix := lower (pathSuffix name)
  if extensionRe suffix then suffix else []

end

/-- `str(id)`: digits and a dash, and distinct texts for distinct identifiers. -/
def uuidText (id : Uuid) : String := toString id.1 ++ "-" ++ toString id.2

/-- The key of an object of a project, with what `file_extension` keeps of the file's name. -/
def objectKey (folder : String) (projectId id : Uuid) (extension : String) : String :=
  "projects/" ++ uuidText projectId ++ "/" ++ folder ++ "/" ++ uuidText id ++ extension

/-- Source: `document_storage_key`. -/
def documentStorageKey (projectId documentId : Uuid) (extension : String) : String :=
  objectKey "documents" projectId documentId extension

/-- Source: `source_storage_key`. -/
def sourceStorageKey (projectId sourceId : Uuid) (extension : String) : String :=
  objectKey "sources" projectId sourceId extension

/-- The digits of both numbers, with a dash between them. -/
theorem uuidText_toList (id : Uuid) :
    (uuidText id).toList = Nat.toDigits 10 id.1 ++ '-' :: Nat.toDigits 10 id.2 := by
  simp [uuidText]

/-- The text of an identifier cannot be taken for a part of a path or for an extension. -/
theorem ne_of_mem_uuidText {id : Uuid} {c : Char} (h : c ∈ (uuidText id).toList) :
    c ≠ '/' ∧ c ≠ '.' := by
  have hdigit : ∀ n, c ∈ Nat.toDigits 10 n → c ≠ '/' ∧ c ≠ '.' := by
    intro n hc
    have hd : c.isDigit = true := Nat.isDigit_of_mem_toDigits (by decide) (by decide) hc
    constructor <;> rintro rfl <;> revert hd <;> decide
  rw [uuidText_toList, List.mem_append, List.mem_cons] at h
  rcases h with h | rfl | h
  · exact hdigit _ h
  · decide
  · exact hdigit _ h

/-- The text of an identifier is not empty. -/
theorem uuidText_ne_nil (id : Uuid) : (uuidText id).toList ≠ [] := by
  rw [uuidText_toList]
  simp

/-- The pieces of a key. -/
theorem objectKey_toList (folder : String) (projectId id : Uuid) (extension : String) :
    (objectKey folder projectId id extension).toList =
      ("projects/" ++ uuidText projectId ++ "/" ++ folder).toList ++
        '/' :: ((uuidText id).toList ++ extension.toList) := by
  simp [objectKey]

/-- An object is found by its identifier and extension. -/
theorem pathName_objectKey {folder : String} {projectId id : Uuid} {extension : String}
    (h : '/' ∉ extension.toList) :
    pathName (objectKey folder projectId id extension).toList =
      (uuidText id).toList ++ extension.toList := by
  rw [objectKey_toList]
  refine PurePath.name_append_sep _ ?_ ?_ ?_
  · rw [List.mem_append, not_or]
    exact ⟨fun hc => (ne_of_mem_uuidText hc).1 rfl, h⟩
  · exact List.append_ne_nil_of_left_ne_nil (uuidText_ne_nil id) _
  · obtain ⟨c, tail, hc⟩ := List.exists_cons_of_ne_nil (uuidText_ne_nil id)
    have hdot := (ne_of_mem_uuidText (hc ▸ List.mem_cons_self : c ∈ (uuidText id).toList)).2
    simp [hc, hdot]

/-! ## Whose object a key names -/

/-- The text before the first occurrence of a separator, and the text after it. -/
theorem append_cons_inj {sep : Char} : ∀ {a b rest rest' : Text}, sep ∉ a → sep ∉ b →
    a ++ sep :: rest = b ++ sep :: rest' → a = b ∧ rest = rest'
  | [], [], _, _, _, _, h => ⟨rfl, (List.cons.inj h).2⟩
  | [], _ :: _, _, _, _, hb, h => absurd ((List.cons.inj h).1 ▸ List.mem_cons_self) hb
  | _ :: _, [], _, _, ha, _, h => absurd ((List.cons.inj h).1 ▸ List.mem_cons_self) ha
  | x :: a, y :: b, rest, rest', ha, hb, h => by
      obtain ⟨rfl, htail⟩ := List.cons.inj h
      obtain ⟨rfl, hrest⟩ := append_cons_inj (fun hm => ha (List.mem_cons_of_mem _ hm))
        (fun hm => hb (List.mem_cons_of_mem _ hm)) htail
      exact ⟨rfl, hrest⟩

/-- `str` of distinct identifiers. -/
theorem uuidText_injective {id id' : Uuid} (h : (uuidText id).toList = (uuidText id').toList) :
    id = id' := by
  have hdash : ∀ n, '-' ∉ Nat.toDigits 10 n := by
    intro n hmem
    have hd : '-'.isDigit = true := Nat.isDigit_of_mem_toDigits (by decide) (by decide) hmem
    revert hd
    decide
  have hinj : ∀ {m n : ℕ}, Nat.toDigits 10 m = Nat.toDigits 10 n → m = n := by
    intro m n heq
    have hm := Nat.ofDigitChars_toDigits (b := 10) (n := m) (by decide) (by decide)
    rw [heq, Nat.ofDigitChars_toDigits (by decide) (by decide)] at hm
    exact hm.symm
  rw [uuidText_toList, uuidText_toList] at h
  obtain ⟨hfst, hsnd⟩ := append_cons_inj (hdash _) (hdash _) h
  exact Prod.ext (hinj hfst) (hinj hsnd)

/-- What follows the identifier in a key: nothing, or an extension. -/
def Extends (rest : Text) : Prop := rest = [] ∨ ∃ tail, rest = '.' :: tail

/-- The key names an object of the document or source with this identifier. -/
def KeyOf (folder : String) (id : Uuid) (key : String) : Prop :=
  ∃ (projectId : Uuid) (rest : Text), Extends rest ∧
    key.toList = ("projects/" ++ uuidText projectId ++ "/" ++ folder ++ "/" ++ uuidText id).toList ++
      rest

/-- A piece of a path before an extension. -/
theorem append_extends_inj {a b rest rest' : Text} (ha : '.' ∉ a) (hb : '.' ∉ b)
    (hr : Extends rest) (hr' : Extends rest') (h : a ++ rest = b ++ rest') : a = b := by
  rcases hr with rfl | ⟨tail, rfl⟩ <;> rcases hr' with rfl | ⟨tail', rfl⟩
  · simpa using h
  · rw [List.append_nil] at h
    exact absurd (h ▸ List.mem_append_right b List.mem_cons_self) ha
  · rw [List.append_nil] at h
    exact absurd (h ▸ List.mem_append_right a List.mem_cons_self) hb
  · exact (append_cons_inj ha hb h).1

/-- **A key has one owner.** -/
theorem keyOf_unique {folder folder' : String} {id id' : Uuid} {key : String}
    (hf : '/' ∉ folder.toList) (hf' : '/' ∉ folder'.toList) (h : KeyOf folder id key)
    (h' : KeyOf folder' id' key) : folder = folder' ∧ id = id' := by
  obtain ⟨p, rest, hr, hkey⟩ := h
  obtain ⟨p', rest', hr', hkey'⟩ := h'
  have hslash : ∀ i : Uuid, '/' ∉ (uuidText i).toList := fun i hmem => (ne_of_mem_uuidText hmem).1 rfl
  have hdot : ∀ i : Uuid, '.' ∉ (uuidText i).toList := fun i hmem => (ne_of_mem_uuidText hmem).2 rfl
  have heq := hkey.symm.trans hkey'
  simp only [String.toList_append, List.append_assoc] at heq
  have htail := List.append_cancel_left heq
  have hsep : "/".toList = ['/'] := rfl
  simp only [hsep, List.singleton_append] at htail
  obtain ⟨-, htail⟩ := append_cons_inj (hslash p) (hslash p') htail
  obtain ⟨hfolder, htail⟩ := append_cons_inj hf hf' htail
  refine ⟨String.toList_inj.mp hfolder, uuidText_injective ?_⟩
  exact append_extends_inj (hdot id) (hdot id') hr hr' htail

/-- An extension that `file_extension` keeps. -/
theorem extends_fileExtension (lower : Text → Text) (filename : Text) :
    Extends (fileExtension lower filename) := by
  unfold fileExtension
  dsimp only
  split
  · rename_i h
    unfold extensionRe at h
    split at h
    · rename_i rest heq
      exact .inr ⟨rest, heq⟩
    · cases h
  · exact .inl rfl

/-- The key of an object is its owner's. -/
theorem keyOf_objectKey {folder : String} {projectId id : Uuid} {extension : String}
    (h : Extends extension.toList) : KeyOf folder id (objectKey folder projectId id extension) :=
  ⟨projectId, extension.toList, h, by simp [objectKey]⟩

/-- The key of the exported file belongs to the same document. -/
theorem KeyOf.exported {folder : String} {id : Uuid} {key : String} (h : KeyOf folder id key) :
    KeyOf folder id (key ++ ".exported") := by
  obtain ⟨p, rest, hr, hkey⟩ := h
  have hext : ".exported".toList = '.' :: "exported".toList := by decide
  refine ⟨p, rest ++ ".exported".toList, ?_, by rw [String.toList_append, hkey, List.append_assoc]⟩
  rcases hr with rfl | ⟨tail, rfl⟩
  · exact .inr ⟨_, hext⟩
  · exact .inr ⟨_, rfl⟩

/-- A key is not empty. -/
theorem KeyOf.ne_empty {folder : String} {id : Uuid} {key : String} (h : KeyOf folder id key) :
    key ≠ "" := by
  rintro rfl
  obtain ⟨projectId, rest, -, hkey⟩ := h
  simp at hkey

end SyncBack
