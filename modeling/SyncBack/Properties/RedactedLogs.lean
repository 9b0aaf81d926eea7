import Mathlib.Data.List.Forall2
import SyncBack.Core.LoggingSetup

/-!
# Secrets do not reach the log

Two values that differ only beneath sensitive keys have the same redaction, and two records that
differ only in attributes with sensitive names, or beneath sensitive keys of their attributes, give
the same line. `Alike` is the relation of two runs, and the proofs follow its derivations.
-/

namespace SyncBack

namespace LoggingSetup

variable {φ ω : Type} (isWord : Char → Bool) (lower : Text → Text)

mutual

/-- Two values of the same shape that differ only beneath sensitive keys. -/
inductive Alike : PyValue φ ω → PyValue φ ω → Prop
  | dict {entries entries'} (h : AlikeEntries entries entries') :
      Alike (.dict entries) (.dict entries')
  | list {items items'} (h : AlikeItems items items') : Alike (.list items) (.list items')
  | tuple {items items'} (h : AlikeItems items items') : Alike (.tuple items) (.tuple items')
  | str (text : Text) : Alike (.str text) (.str text)
  | scalar (value : PyScalar φ ω) : Alike (.scalar value) (.scalar value)

inductive AlikeEntries : List (PyKey φ ω × PyValue φ ω) → List (PyKey φ ω × PyValue φ ω) → Prop
  | nil : AlikeEntries [] []
  | hidden {key} (value value') {entries entries'} (hkey : hidesKey isWord lower key = true)
      (h : AlikeEntries entries entries') :
      AlikeEntries ((key, value) :: entries) ((key, value') :: entries')
  | shown (key) {value value' entries entries'} (hvalue : Alike value value')
      (h : AlikeEntries entries entries') :
      AlikeEntries ((key, value) :: entries) ((key, value') :: entries')

inductive AlikeItems : List (PyValue φ ω) → List (PyValue φ ω) → Prop
  | nil : AlikeItems [] []
  | cons {item item' items items'} (hitem : Alike item item') (h : AlikeItems items items') :
      AlikeItems (item :: items) (item' :: items')

end

variable {isWord lower}

mutual

/-- The redaction does not see what the values differ in. -/
theorem redact_eq {value value' : PyValue φ ω} :
    Alike isWord lower value value' → redact isWord lower value = redact isWord lower value'
  | .dict h => congrArg PyValue.dict (redactEntries_eq h)
  | .list h => congrArg PyValue.list (redactItems_eq h)
  | .tuple h => congrArg PyValue.list (redactItems_eq h)
  | .str _ => rfl
  | .scalar _ => rfl

/-- Entries that are alike are redacted alike, by recursion on them. -/
theorem redactEntries_eq {entries entries' : List (PyKey φ ω × PyValue φ ω)} :
    AlikeEntries isWord lower entries entries' →
      redactEntries isWord lower entries = redactEntries isWord lower entries'
  | .nil => rfl
  | .hidden value value' hkey h => by
      have hrest := redactEntries_eq h
      simp only [redactEntries, hkey, if_true, hrest]
  | .shown key hvalue h => by
      have hhead := redact_eq hvalue
      have hrest := redactEntries_eq h
      simp only [redactEntries, hhead, hrest]

/-- So are items. -/
theorem redactItems_eq {items items' : List (PyValue φ ω)} :
    AlikeItems isWord lower items items' →
      redactItems isWord lower items = redactItems isWord lower items'
  | .nil => rfl
  | .cons hitem h => by
      have hhead := redact_eq hitem
      have hrest := redactItems_eq h
      simp only [redactItems, hhead, hrest]

end

/-! ## Records -/

variable (isWord lower)

/-- Two attributes of the same name, with the same value unless the attribute is an extra one; the
values of an extra attribute may differ if its name is sensitive, and beneath sensitive keys. -/
def AlikeAttribute (item item' : Text × PyValue φ ω) : Prop :=
  item.1 = item'.1 ∧ (item.2 = item'.2 ∨ item.1 ∉ standardLogRecordKeys ∧
    (isSensitiveKey isWord lower item.1 = true ∨ Alike isWord lower item.2 item'.2))

/-- Two records that differ only in such attributes. -/
structure AlikeRecord (record record' : LogRecord φ ω) : Prop where
  created : record.created = record'.created
  levelname : record.levelname = record'.levelname
  name : record.name = record'.name
  message : record.message = record'.message
  exception : record.exception = record'.exception
  dict : List.Forall₂ (AlikeAttribute isWord lower) record.dict record'.dict

variable {isWord lower}

/-- What the loop writes for an attribute does not depend on what is hidden. -/
theorem addAttribute_eq {item item' : Text × PyValue φ ω}
    (h : AlikeAttribute isWord lower item item') (payload : List (Text × PyValue φ ω)) :
    addAttribute isWord lower payload item = addAttribute isWord lower payload item' := by
  obtain ⟨key, value⟩ := item
  obtain ⟨key', value'⟩ := item'
  obtain ⟨hkey, hvalue⟩ := h
  dsimp only at hkey hvalue
  subst hkey
  obtain rfl | ⟨-, hsensitive | halike⟩ := hvalue
  · rfl
  · simp only [addAttribute, hsensitive, if_true]
  · simp only [addAttribute, redact_eq halike]

/-- So are the attributes of a record. -/
theorem foldl_addAttribute_eq {items items' : List (Text × PyValue φ ω)}
    (h : List.Forall₂ (AlikeAttribute isWord lower) items items')
    (payload : List (Text × PyValue φ ω)) :
    items.foldl (addAttribute isWord lower) payload =
      items'.foldl (addAttribute isWord lower) payload := by
  induction h generalizing payload with
  | nil => rfl
  | cons hitem _ ih =>
      rw [List.foldl_cons, List.foldl_cons, addAttribute_eq hitem]
      exact ih _

/-- Records that are alike have the same payload. -/
theorem payloadOf_eq {record record' : LogRecord φ ω} (h : AlikeRecord isWord lower record record')
    (requestId taskId : Option Text) :
    payloadOf isWord lower requestId taskId record =
      payloadOf isWord lower requestId taskId record' := by
  have hbase : basePayload isWord requestId taskId record =
      basePayload isWord requestId taskId record' := by
    simp only [basePayload, h.created, h.levelname, h.name, h.message]
  simp only [payloadOf, foldl_addAttribute_eq h.dict, hbase, h.exception]

variable (isWord lower)

/-- **Nothing beneath a sensitive key influences the log**: neither the redaction of a value nor the
line of a record. -/
theorem secrets_never_logged (floatRepr : φ → Text) (objectStr : ω → Text)
    (requestId taskId : Option Text) :
    (∀ value value' : PyValue φ ω, Alike isWord lower value value' →
      redact isWord lower value = redact isWord lower value') ∧
    ∀ record record' : LogRecord φ ω, AlikeRecord isWord lower record record' →
      format isWord lower floatRepr objectStr requestId taskId record =
        format isWord lower floatRepr objectStr requestId taskId record' := by
  refine ⟨fun value value' h => redact_eq h, fun record record' h => ?_⟩
  rw [format, format, payloadOf_eq h]

/-- A record with a token among its attributes and a password in a nested one. -/
def loginRecord (token password : String) : LogRecord Unit Unit where
  created := 0
  levelname := "INFO".toList
  name := "app".toList
  message := "login".toList
  exception := none
  dict := [("accessToken".toList, .str token.toList),
    ("context".toList, .list [.dict [(.str "Password".toList, .str password.toList)]])]

/-- A key with a dash, and the record of a login. -/
theorem loginRecord_hidden :
    redact (fun c => c.isAlphanum || c = '_') (fun text => text.map Char.toLower)
        (.dict [(.str "api-key".toList, .str "a".toList)] : PyValue Unit Unit) =
      redact (fun c => c.isAlphanum || c = '_') (fun text => text.map Char.toLower)
        (.dict [(.str "api-key".toList, .list [])]) ∧
    format (fun c => c.isAlphanum || c = '_') (fun text => text.map Char.toLower)
        (fun _ => []) (fun _ => []) none none (loginRecord "a" "b") =
      format (fun c => c.isAlphanum || c = '_') (fun text => text.map Char.toLower)
        (fun _ => []) (fun _ => []) none none (loginRecord "c" "d") := by
  have hboth := secrets_never_logged (φ := Unit) (ω := Unit) (fun c => c.isAlphanum || c = '_')
    (fun text => text.map Char.toLower) (fun _ => []) (fun _ => []) none none
  refine ⟨hboth.1 _ _ (.dict (.hidden _ _ (by decide) .nil)), hboth.2 _ _ ?_⟩
  refine ⟨rfl, rfl, rfl, rfl, rfl, .cons ⟨rfl, .inr ⟨by decide, .inl (by decide)⟩⟩
    (.cons ⟨rfl, .inr ⟨by decide, .inr ?_⟩⟩ .nil)⟩
  exact .list (.cons (.dict (.hidden _ _ (by decide) .nil)) .nil)

end LoggingSetup

end SyncBack
