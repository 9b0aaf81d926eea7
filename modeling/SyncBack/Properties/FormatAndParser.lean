import SyncBack.Application.Statements

/-!
# The format of a document and the parser of its file

`upload_document` takes the format of a document from the file's name, the registry takes the
parser from the key of the stored object. Both look at the suffix after the last dot, but the key
is built from the name with its backslashes taken for separators. The two agree unless there is a
backslash right before that dot: the key has no extension then, and the file is read as text
whatever its format is.
-/

namespace SyncBack

open Strings Txn

/-- What `str.lower` does with ASCII characters: a text of them is lowered letter by letter, and a
character that is no capital stays in every text. -/
structure LowersAscii (lower : Text → Text) : Prop where
  ascii : ∀ text : Text, (∀ c ∈ text, c.toNat < 128) → lower text = text.map Char.toLower
  keeps : ∀ text : Text, ∀ c ∈ text, c.toNat < 128 → c.isUpper = false → c ∈ lower text

/-- The parser that goes with a format; `.doc` is never stored. -/
def DocumentFormat.parser : DocumentFormat → Option Parser
  | .docx => some .docx
  | .markdown => some .markdown
  | .txt => some .txt
  | .doc => none

/-- The file of the document is read with the parser of the document's format. -/
def ReadAs (lower : Text → Text) (storageKey : String) (format : DocumentFormat) : Prop :=
  ∃ parser, DocumentParserRegistry.parserByFilename lower storageKey.toList = .ok parser ∧
    format.parser = some parser

/-- The name has no backslash right before the last dot, or the suffix is that of a text. -/
def SuffixReachesKey (lower : Text → Text) (filename : Text) : Prop :=
  lower (pathSuffix filename) = ".txt".toList ∨
    ∀ stem ext, pathName filename = stem ++ '.' :: ext → '.' ∉ ext → stem.getLast? ≠ some '\\'

variable {lower : Text → Text}

/-! ## What is stored -/

/-- A row that an upload stores has the format and the key that its file name gives. -/
def StoredFor (lower : Text → Text) (projectId : Uuid) (filename : Text) (stmt : AppStmt) : Prop :=
  ∀ id row, stmt = .insert (.document id) row →
    DocumentService.resolveFormat lower filename = .ok row.format ∧
      row.storageKey =
        documentStorageKey projectId id (String.ofList (fileExtension lower filename))

instance (projectId : Uuid) (filename : Text) :
    AllowsTransaction (StoredFor lower projectId filename) where
  reads h := by cases h <;> exact fun _ _ heq => nomatch heq
  commit := fun _ _ heq => nomatch heq
  rollback := fun _ _ heq => nomatch heq

/-- A format that is resolved is the result. -/
theorem resolveFormat_of_toOption {filename : Text} {format : DocumentFormat}
    (h : (DocumentService.resolveFormat lower filename).toOption = some format) :
    DocumentService.resolveFormat lower filename = .ok format := by
  cases hformat : DocumentService.resolveFormat lower filename with
  | error e =>
      rw [hformat] at h
      cases h
  | ok format' =>
      rw [hformat] at h
      exact congrArg _ (Option.some.inj h)

/-- **An upload stores the format and the key of its file name.** -/
theorem sends_uploadOfFilename (maxSizeBytes : ℕ) (projectId : Uuid) (filename : Text) (size : ℕ)
    (stored : Bool) :
    (DocumentService.uploadDocument maxSizeBytes projectId
      (DocumentService.uploadOfFilename lower filename size stored)).Sends
        (StoredFor lower projectId filename) := by
  unfold DocumentService.uploadDocument
  split
  · trivial
  split
  · trivial
  next format hformat =>
  refine (Prog.Sends.stmt fun _ _ heq => nomatch heq).bind fun documentId => ?_
  split
  · refine sends_withUow (Prog.Sends.bind ?_ fun _ =>
      (Prog.Sends.stmt AllowsTransaction.commit).bind fun _ => trivial)
    refine (Prog.Sends.stmt ?_).bind fun inserted => ?_
    · rintro id row heq
      cases heq
      exact ⟨resolveFormat_of_toOption hformat, rfl⟩
    · split <;> trivial
  · trivial

/-! ## The suffix in the name and in the key -/

/-- The accepted suffixes. -/
theorem mem_formatByExtension {filename : Text} {format : DocumentFormat}
    (h : DocumentService.resolveFormat lower filename = .ok format) :
    (lower (pathSuffix filename), format) ∈ DocumentService.formatByExtension := by
  unfold DocumentService.resolveFormat DocumentService.extensionToFormat at h
  split at h
  · cases h
  · next hlookup =>
      obtain rfl := Except.ok.inj h
      obtain ⟨_, _, htable, -⟩ := List.lookup_eq_some_iff.mp hlookup
      rw [htable]
      simp

/-- What the tables say about an accepted suffix. -/
theorem formatByExtension_spec : ∀ entry ∈ DocumentService.formatByExtension,
    (∀ c ∈ entry.1, c.toNat < 128) ∧ entry.1.map Char.toLower = entry.1 ∧
      extensionRe entry.1 = true ∧ '\\' ∉ entry.1 ∧ '/' ∉ entry.1 ∧
      entry.1 ∉ DocumentParserRegistry.blockedExtensions ∧
      entry.2.parser = some ((DocumentParserRegistry.getParserForSuffix entry.1).getD .txt) ∧
      (entry.2.parser = some .txt ↔ entry.1 = ".txt".toList) ∧
      entry.1.head? = some '.' ∧ '.' ∉ entry.1.tail ∧ entry.1.tail ≠ [] := by
  have hascii : ∀ entry ∈ DocumentService.formatByExtension,
      (entry.1.all fun c => decide (c.toNat < 128)) = true := by decide
  have htables : ∀ entry ∈ DocumentService.formatByExtension, entry.1.map Char.toLower = entry.1 ∧
      extensionRe entry.1 = true ∧ '\\' ∉ entry.1 ∧ '/' ∉ entry.1 ∧
      entry.1 ∉ DocumentParserRegistry.blockedExtensions ∧
      entry.2.parser = some ((DocumentParserRegistry.getParserForSuffix entry.1).getD .txt) ∧
      (entry.2.parser = some .txt ↔ entry.1 = ".txt".toList) ∧
      entry.1.head? = some '.' ∧ '.' ∉ entry.1.tail ∧ entry.1.tail ≠ [] := by decide
  exact fun entry hmem => ⟨Strings.forall_of_all (hascii entry hmem), htables entry hmem⟩

/-- What follows the last point of a text. -/
theorem eq_of_append_dot {stem stem' ext ext' : Text} (h : stem ++ '.' :: ext = stem' ++ '.' :: ext')
    (hext : '.' ∉ ext) (hext' : '.' ∉ ext') : stem = stem' ∧ ext = ext' := by
  have hlen : stem.length = stem'.length := by
    have := congrArg (rfind '.') h
    rwa [rfind_append_cons hext, rfind_append_cons hext', Option.some.injEq] at this
  obtain ⟨rfl, hcons⟩ := List.append_inj h hlen
  exact ⟨rfl, (List.cons.inj hcons).2⟩

/-- Without a backslash nothing is replaced. -/
theorem replaceBackslashes_eq_self {text : Text} (h : '\\' ∉ text) :
    replaceBackslashes text = text := by
  unfold replaceBackslashes
  conv_rhs => rw [← List.map_id text]
  refine List.map_congr_left fun c hc => if_neg ?_
  rintro rfl
  exact h hc

/-- Around a backslash the rest is replaced. -/
theorem replaceBackslashes_append (front back : Text) :
    replaceBackslashes (front ++ '\\' :: back) =
      replaceBackslashes front ++ '/' :: replaceBackslashes back := by
  simp [replaceBackslashes]

/-- What is left of a stem when its backslashes separate. -/
theorem components_replaceBackslashes {stem ext : Text} (hslash : '/' ∉ stem ++ '.' :: ext)
    (hne : ext ≠ []) (hback : '\\' ∉ ext) :
    ∃ init rest, (stem.getLast? = some '\\' ↔ stem ≠ [] ∧ rest = []) ∧
      PurePath.components '/' '.' (replaceBackslashes (stem ++ '.' :: ext)) =
        init ++ [rest ++ '.' :: ext] := by
  have hsingle : ∀ rest : Text, '/' ∉ rest →
      PurePath.components '/' '.' (rest ++ '.' :: ext) = [rest ++ '.' :: ext] := by
    intro rest hrest
    refine PurePath.components_eq_singleton ?_ (by simp) ?_
    · rw [List.mem_append, not_or] at hslash ⊢
      exact ⟨hrest, hslash.2⟩
    · cases rest <;> simp [hne]
  rw [List.mem_append, not_or] at hslash
  cases hi : rfind '\\' stem with
  | none =>
      have hstem := rfind_eq_none_iff.mp hi
      refine ⟨[], stem, ⟨fun h => absurd (List.mem_of_getLast? h) hstem, fun h => absurd h.2 h.1⟩, ?_⟩
      have hmap : replaceBackslashes (stem ++ '.' :: ext) = stem ++ '.' :: ext :=
        replaceBackslashes_eq_self (by simp [hstem, hback])
      rw [hmap, hsingle stem hslash.1, List.nil_append]
  | some i =>
      obtain ⟨front, rest, rfl, hrest, -⟩ := exists_of_rfind hi
      refine ⟨PurePath.components '/' '.' (replaceBackslashes front), rest, ?_, ?_⟩
      · cases rest with
        | nil => simp
        | cons c rest =>
            have hlast : (front ++ '\\' :: c :: rest).getLast? = (c :: rest).getLast? := by
              rw [List.getLast?_append_of_ne_nil _ (List.cons_ne_nil _ _),
                List.getLast?_cons_cons]
            rw [hlast]
            simp only [List.cons_ne_nil, and_false, iff_false]
            exact fun h => hrest (List.mem_of_getLast? h)
      · have hmap : replaceBackslashes (front ++ '\\' :: rest ++ '.' :: ext) =
            replaceBackslashes front ++ '/' :: (rest ++ '.' :: ext) := by
          rw [List.append_assoc, List.cons_append, replaceBackslashes_append,
            replaceBackslashes_eq_self (by simp [hrest, hback] : '\\' ∉ rest ++ '.' :: ext)]
        rw [hmap, PurePath.components_append_sep, hsingle rest fun h => hslash.1 (by simp [h])]

/-- The suffix that `file_extension` finds: the one of the name, unless a backslash before the dot
leaves it without a stem. -/
theorem pathSuffix_replaceBackslashes {filename stem ext : Text}
    (hname : pathName filename = stem ++ '.' :: ext) (hstem : stem ≠ []) (hext : '.' ∉ ext)
    (hne : ext ≠ []) (hback : '\\' ∉ ext) :
    pathSuffix (replaceBackslashes filename) =
      if stem.getLast? = some '\\' then [] else '.' :: ext := by
  have hne' : pathName filename ≠ [] := by simp [hname]
  have hslash : '/' ∉ stem ++ '.' :: ext := hname ▸ (PurePath.name_mem hne').1
  obtain ⟨init, rest, hlast, hcomponents⟩ := components_replaceBackslashes hslash hne hback
  rw [← hname] at hcomponents
  have hrest : pathName (replaceBackslashes filename) = rest ++ '.' :: ext :=
    PurePath.name_map (by decide) (by decide) hcomponents
  rw [pathSuffix, PurePath.suffix_of_name hrest hext hne]
  by_cases h : rest = []
  · rw [if_pos h, if_pos (hlast.mpr ⟨hstem, h⟩)]
  · rw [if_neg h, if_neg fun hl => h (hlast.mp hl).2]

/-- The suffix of the key is the extension that was put there. -/
theorem pathSuffix_documentStorageKey (projectId documentId : Uuid) {extension : Text}
    (h : extension = [] ∨ extension.head? = some '.' ∧ '.' ∉ extension.tail ∧ extension.tail ≠ [] ∧
      '/' ∉ extension) :
    pathSuffix (documentStorageKey projectId documentId (String.ofList extension)).toList =
      extension := by
  have hslash : '/' ∉ (String.ofList extension).toList := by
    rcases h with rfl | ⟨-, -, -, h⟩
    · simp
    · simpa using h
  have hname : PurePath.name '/' '.' (documentStorageKey projectId documentId
      (String.ofList extension)).toList = (uuidText documentId).toList ++ extension :=
    (pathName_objectKey hslash).trans (by rw [String.toList_ofList])
  rcases h with rfl | ⟨hhead, hdot, hne, -⟩
  · refine PurePath.suffix_eq_nil ?_
    rw [hname, List.append_nil]
    exact fun hc => (ne_of_mem_uuidText hc).2 rfl
  · obtain ⟨ext, rfl⟩ := List.head?_eq_some_iff.mp hhead
    rw [pathSuffix, PurePath.suffix_of_name hname hdot hne, if_neg (uuidText_ne_nil documentId)]

/-- The suffix reaches the key if the stem ends in no backslash, or the format is text. -/
theorem suffixReachesKey_iff {filename : Text} (stem ext : Text)
    (hname : pathName filename = stem ++ '.' :: ext) (hext : '.' ∉ ext) :
    SuffixReachesKey lower filename ↔
      lower (pathSuffix filename) = ".txt".toList ∨ stem.getLast? ≠ some '\\' := by
  refine or_congr_right ⟨fun h => h stem ext hname hext, fun h stem' ext' hname' hext' => ?_⟩
  obtain ⟨rfl, -⟩ := eq_of_append_dot (hname.symm.trans hname') hext hext'
  exact h

/-- A file under the key of its document is read with the parser of the format exactly when the
suffix reaches the key or is that of a text. -/
theorem readAs_documentStorageKey_iff (hlower : LowersAscii lower) {filename : Text}
    {format : DocumentFormat} (h : DocumentService.resolveFormat lower filename = .ok format)
    (projectId documentId : Uuid) :
    ReadAs lower (documentStorageKey projectId documentId
      (String.ofList (fileExtension lower filename))) format ↔ SuffixReachesKey lower filename := by
  obtain ⟨hascii, hlow, hre, hback, hslash, hblocked, hparser, htxt, hhead, hdot, htail⟩ :=
    formatByExtension_spec _ (mem_formatByExtension h)
  dsimp only at hascii hlow hre hback hslash hblocked hparser htxt hhead hdot htail
  have hnil : lower [] = [] := hlower.ascii [] (by simp)
  have hsuffix : pathSuffix filename ≠ [] := by
    intro hs
    rw [hs, hnil] at hhead
    cases hhead
  obtain ⟨stem, ext, hname, hs, hext, hstem, hne⟩ := PurePath.exists_stem_of_suffix hsuffix
  have hbackslash : '\\' ∉ ext := fun hc => hback <| by
    refine hlower.keeps _ _ ?_ (by decide) (by decide)
    rw [pathSuffix, hs]
    exact List.mem_cons_of_mem _ hc
  have hreplaced := pathSuffix_replaceBackslashes hname hstem hext hne hbackslash
  have hpath : pathSuffix filename = '.' :: ext := hs
  have hextension : fileExtension lower filename =
      if stem.getLast? = some '\\' then [] else lower (pathSuffix filename) := by
    have hsame : pathSuffix (pathName (replaceBackslashes filename)) =
        pathSuffix (replaceBackslashes filename) := PurePath.suffix_name _
    simp only [fileExtension, hsame, hreplaced]
    by_cases hl : stem.getLast? = some '\\'
    · simp [hl, hnil]
    · rw [if_neg hl, if_neg hl, ← hpath, if_pos hre]
  rw [suffixReachesKey_iff _ _ hname hext, hextension]
  by_cases hl : stem.getLast? = some '\\'
  · -- the key has no extension
    rw [if_pos hl]
    simp only [hl, ne_eq, not_true_eq_false, or_false]
    have hread : DocumentParserRegistry.parserByFilename lower
        (documentStorageKey projectId documentId (String.ofList [])).toList = .ok .txt := by
      unfold DocumentParserRegistry.parserByFilename
      rw [pathSuffix_documentStorageKey _ _ (.inl rfl), hnil]
      rfl
    rw [← htxt]
    constructor
    · rintro ⟨parser, hparser', hformat⟩
      rw [hread] at hparser'
      rw [hformat, Except.ok.inj hparser']
    · exact fun hformat => ⟨_, hread, hformat⟩
  · rw [if_neg hl]
    simp only [hl, ne_eq, not_false_eq_true, or_true, iff_true]
    unfold ReadAs DocumentParserRegistry.parserByFilename
    rw [pathSuffix_documentStorageKey _ _ (.inr ⟨hhead, hdot, htail, hslash⟩),
      hlower.ascii _ hascii, hlow]
    simp only [if_neg hblocked]
    exact ⟨_, rfl, hparser⟩

/-- **Format and parser**: the file of an uploaded document is read with the parser of the
document's format exactly when the suffix reaches the key or is that of a text. The format and the key
are those of the row that an upload of this name stores. -/
theorem stored_document_read_as_iff (hlower : LowersAscii lower) {filename : Text}
    {format : DocumentFormat} (h : DocumentService.resolveFormat lower filename = .ok format)
    (projectId documentId : Uuid) :
    (ReadAs lower (documentStorageKey projectId documentId
      (String.ofList (fileExtension lower filename))) format ↔ SuffixReachesKey lower filename) ∧
    ∀ maxSizeBytes size stored, (DocumentService.uploadDocument maxSizeBytes projectId
      (DocumentService.uploadOfFilename lower filename size stored)).Sends fun stmt =>
        ∀ id row, stmt = .insert (.document id) row → row.format = format ∧
          row.storageKey =
            documentStorageKey projectId id (String.ofList (fileExtension lower filename)) := by
  refine ⟨readAs_documentStorageKey_iff hlower h projectId documentId, fun _ size stored => ?_⟩
  refine (sends_uploadOfFilename _ projectId filename size stored).mono fun stmt hstored => ?_
  intro id row heq
  obtain ⟨hformat, hkey⟩ := hstored id row heq
  exact ⟨Except.ok.inj (hformat.symm.trans h), hkey⟩

/-- `str.lower` on ASCII. -/
theorem lowersAscii_map : LowersAscii (List.map Char.toLower) where
  ascii _ _ := rfl
  keeps text c hc _ hupper := by
    refine List.mem_map.mpr ⟨c, hc, ?_⟩
    unfold Char.toLower
    unfold Char.isUpper at hupper
    rw [dif_neg (by simpa using hupper)]

/-- A file uploaded under a path of Windows. -/
theorem windows_path_read_as_docx :
    ReadAs (List.map Char.toLower) (documentStorageKey (0, 0) (0, 1)
      (String.ofList (fileExtension (List.map Char.toLower) "C:\\docs\\spec.DOCX".toList))) .docx :=
  (stored_document_read_as_iff lowersAscii_map (by decide +kernel) (0, 0) (0, 1)).1.mpr
    ((suffixReachesKey_iff "C:\\docs\\spec".toList "DOCX".toList
      (by decide +kernel) (by decide)).mpr (.inr (by decide)))

/-- A name with a backslash right before the dot: the document is a docx, its file is read as
text. -/
theorem backslash_before_dot_read_as_text :
    DocumentService.resolveFormat (List.map Char.toLower) "x\\.docx".toList = .ok .docx ∧
      DocumentParserRegistry.parserByFilename (List.map Char.toLower)
        (documentStorageKey (0, 0) (0, 1) (String.ofList
          (fileExtension (List.map Char.toLower) "x\\.docx".toList))).toList = .ok .txt ∧
      ¬ ReadAs (List.map Char.toLower) (documentStorageKey (0, 0) (0, 1)
        (String.ofList (fileExtension (List.map Char.toLower) "x\\.docx".toList))) .docx := by
  have hread : DocumentParserRegistry.parserByFilename (List.map Char.toLower)
      (documentStorageKey (0, 0) (0, 1) (String.ofList
        (fileExtension (List.map Char.toLower) "x\\.docx".toList))).toList = .ok .txt := by
    decide +kernel
  refine ⟨by decide +kernel, hread, ?_⟩
  rintro ⟨parser, hparser, hformat⟩
  rw [hread] at hparser
  obtain rfl := Except.ok.inj hparser
  cases hformat

end SyncBack
