import SyncBack.Domain.StorageKeys

/-!
# What a file name leaves in a key

A key is made of fixed words, two identifiers and what `file_extension` keeps of the file's name.
The expression that looks at the extension ends in `$`, and `$` also matches before a line feed at
the end of the text: a name like `a.txt` with a line feed after it puts the line feed into the key.
No other name puts anything but a dot and one to ten letters and digits there.
-/

namespace SyncBack

open Strings

/-- `[a-z0-9]{1,10}`. -/
def PlainLetters (body : Text) : Prop :=
  1 ≤ body.length ∧ body.length ≤ 10 ∧ ∀ c ∈ body, c.isLower = true ∨ c.isDigit = true

/-- Nothing, or a dot and one to ten plain letters. -/
def SafeExtension (extension : Text) : Prop :=
  extension = [] ∨ ∃ body, extension = '.' :: body ∧ PlainLetters body

/-- The key has the fixed words of the path, the two identifiers and a safe extension. -/
def SafeKey (folder : String) (projectId id : Uuid) (key : String) : Prop :=
  ∃ extension, SafeExtension extension ∧
    key.toList =
      "projects/".toList ++ (uuidText projectId).toList ++ '/' :: folder.toList ++
        '/' :: (uuidText id).toList ++ extension

/-- The last component of the name is `stem.ext`, and in lower case its suffix is a dot, one to ten
plain letters and a line feed. -/
def LineFeedName (lower : Text → Text) (filename : Text) : Prop :=
  ∃ stem ext body, pathName (replaceBackslashes filename) = stem ++ '.' :: ext ∧
    stem ≠ [] ∧ ext ≠ [] ∧ '.' ∉ ext ∧
    lower ('.' :: ext) = '.' :: (body ++ ['\n']) ∧ PlainLetters body

/-! ## What the expression matches -/

/-- Plain letters are no line feed. -/
theorem PlainLetters.lineFeed {body : Text} (h : PlainLetters body) : '\n' ∉ body := by
  intro hmem
  have hplain := h.2.2 '\n' hmem
  revert hplain
  decide

/-- A text that ends in a line feed is no text of plain letters. -/
theorem PlainLetters.getLast?_ne {body : Text} (h : PlainLetters body) :
    body.getLast? ≠ some '\n' := by
  intro hlast
  exact h.lineFeed (List.mem_of_getLast? hlast)

/-- The check of an extension is right. -/
theorem plainLetters_iff (body : Text) :
    (1 ≤ body.length && body.length ≤ 10 && body.all fun c => c.isLower || c.isDigit) = true ↔
      PlainLetters body := by
  simp [PlainLetters, and_assoc]

/-- The expression takes a dot and plain letters, with or without a line feed after them. -/
theorem extensionRe_iff (suffix : Text) :
    extensionRe suffix = true ↔
      ∃ body, PlainLetters body ∧ (suffix = '.' :: body ∨ suffix = '.' :: (body ++ ['\n'])) := by
  constructor
  · intro h
    unfold extensionRe at h
    split at h
    · rename_i rest
      by_cases hlast : rest.getLast? = some '\n'
      · rw [if_pos hlast] at h
        obtain ⟨body, rfl⟩ := List.getLast?_eq_some_iff.mp hlast
        rw [List.dropLast_concat] at h
        exact ⟨body, (plainLetters_iff body).mp h, .inr rfl⟩
      · rw [if_neg hlast] at h
        exact ⟨rest, (plainLetters_iff rest).mp h, .inl rfl⟩
    · cases h
  · rintro ⟨body, hbody, rfl | rfl⟩
    · simp only [extensionRe, if_neg hbody.getLast?_ne]
      exact (plainLetters_iff body).mpr hbody
    · simp only [extensionRe, List.getLast?_concat, List.dropLast_concat, if_pos]
      exact (plainLetters_iff body).mpr hbody

/-! ## What is kept of a name -/

section

variable {lower : Text → Text}

/-- The suffix that `file_extension` looks at. -/
theorem fileExtension_eq (filename : Text) :
    fileExtension lower filename =
      if extensionRe (lower (pathSuffix (replaceBackslashes filename))) then
        lower (pathSuffix (replaceBackslashes filename))
      else [] := by
  have hsuffix : pathSuffix (pathName (replaceBackslashes filename)) =
      pathSuffix (replaceBackslashes filename) := PurePath.suffix_name _
  unfold fileExtension
  dsimp only
  rw [hsuffix]

/-- An empty suffix stays empty, so a line feed comes from a name with an extension. -/
theorem lineFeedName_iff (hlower : lower [] = []) (filename : Text) :
    LineFeedName lower filename ↔
      ∃ body, PlainLetters body ∧
        lower (pathSuffix (replaceBackslashes filename)) = '.' :: (body ++ ['\n']) := by
  constructor
  · rintro ⟨stem, ext, body, hname, hstem, hext, hdot, heq, hbody⟩
    refine ⟨body, hbody, ?_⟩
    rw [pathSuffix, PurePath.suffix_of_name hname hdot hext, if_neg hstem]
    exact heq
  · rintro ⟨body, hbody, heq⟩
    have hne : pathSuffix (replaceBackslashes filename) ≠ [] := by
      intro hnil
      rw [hnil, hlower] at heq
      cases heq
    obtain ⟨stem, ext, hname, hsuffix, hdot, hstem, hext⟩ := PurePath.exists_stem_of_suffix hne
    refine ⟨stem, ext, body, hname, hstem, hext, hdot, ?_, hbody⟩
    rw [← hsuffix]
    exact heq

/-- **What is kept of a name.** -/
theorem safeExtension_fileExtension_iff (hlower : lower [] = []) (filename : Text) :
    SafeExtension (fileExtension lower filename) ↔ ¬ LineFeedName lower filename := by
  rw [lineFeedName_iff hlower, fileExtension_eq]
  constructor
  · rintro hsafe ⟨body, hbody, heq⟩
    rw [heq, if_pos ((extensionRe_iff _).mpr ⟨body, hbody, .inr rfl⟩)] at hsafe
    rcases hsafe with hnil | ⟨body', heq', hbody'⟩
    · cases hnil
    · obtain ⟨-, rfl⟩ := List.cons.inj heq'
      exact hbody'.lineFeed (List.mem_append_right _ (List.mem_singleton_self _))
  · intro hno
    split
    · rename_i hre
      obtain ⟨body, hbody, heq | heq⟩ := (extensionRe_iff _).mp hre
      · exact .inr ⟨body, heq, hbody⟩
      · exact absurd ⟨body, hbody, heq⟩ hno
    · exact .inl rfl

end

/-- A key is as safe as what follows its identifiers. -/
theorem safeKey_objectKey_iff (folder : String) (projectId id : Uuid) (extension : Text) :
    SafeKey folder projectId id (objectKey folder projectId id (String.ofList extension)) ↔
      SafeExtension extension := by
  have hkey : (objectKey folder projectId id (String.ofList extension)).toList =
      "projects/".toList ++ (uuidText projectId).toList ++ '/' :: folder.toList ++
        '/' :: (uuidText id).toList ++ extension := by
    simp [objectKey]
  constructor
  · rintro ⟨extension', hsafe, heq⟩
    obtain rfl := List.append_cancel_left (hkey.symm.trans heq)
    exact hsafe
  · intro hsafe
    exact ⟨extension, hsafe, hkey⟩

/-- **Which names are safe.** Both keys of a file consist of the fixed words, the two identifiers
and a safe extension, unless the name has a line feed right after its extension. -/
theorem storageKeys_safe_iff (lower : Text → Text) (hlower : lower [] = [])
    (projectId documentId sourceId : Uuid) (filename : Text) :
    (SafeKey "documents" projectId documentId
        (documentStorageKey projectId documentId
          (String.ofList (fileExtension lower filename))) ∧
      SafeKey "sources" projectId sourceId
        (sourceStorageKey projectId sourceId
          (String.ofList (fileExtension lower filename)))) ↔
      ¬ LineFeedName lower filename := by
  unfold documentStorageKey sourceStorageKey
  rw [safeKey_objectKey_iff, safeKey_objectKey_iff, and_self]
  exact safeExtension_fileExtension_iff hlower filename

/-- A name with an extension and nothing after it. -/
theorem storageKeys_safe_report :
    (SafeKey "documents" (0, 0) (0, 1)
        (documentStorageKey (0, 0) (0, 1)
          (String.ofList (fileExtension (List.map Char.toLower) "a.TXT".toList))) ∧
      SafeKey "sources" (0, 0) (0, 2)
        (sourceStorageKey (0, 0) (0, 2)
          (String.ofList (fileExtension (List.map Char.toLower) "a.TXT".toList)))) ↔
      ¬ LineFeedName (List.map Char.toLower) "a.TXT".toList :=
  storageKeys_safe_iff (List.map Char.toLower) rfl (0, 0) (0, 1) (0, 2) "a.TXT".toList

/-- The same name with a line feed after it: the line feed gets into the key. -/
theorem storageKeys_lineFeed :
    ¬ ∀ (lower : Text → Text), lower [] = [] →
      ∀ (projectId documentId sourceId : Uuid) (filename : Text),
        SafeKey "documents" projectId documentId
          (documentStorageKey projectId documentId
            (String.ofList (fileExtension lower filename))) ∧
        SafeKey "sources" projectId sourceId
          (sourceStorageKey projectId sourceId
            (String.ofList (fileExtension lower filename))) := by
  intro hall
  have hkey := (hall (List.map Char.toLower) rfl (0, 0) (0, 1) (0, 2) "a.txt\n".toList).1
  have hext : fileExtension (List.map Char.toLower) "a.txt\n".toList = ".txt\n".toList := by
    decide +kernel
  rw [hext, documentStorageKey, safeKey_objectKey_iff] at hkey
  rcases hkey with hnil | ⟨body, hbody, hplain⟩
  · cases hnil
  · have hmem : '\n' ∈ body := by
      have htail : ".txt\n".toList.tail = body := by rw [hbody]; rfl
      rw [← htail]
      decide
    exact hplain.lineFeed hmem

end SyncBack
