import SyncBack.Formats.JsonScalars
import SyncBack.Strings.Search

/-!
# What JSON keeps

Whatever is written is read again (`loads_dumps`), up to what a text cannot hold: two surrogates
that form a pair come back as one character, a repeated key keeps its last value. A value without
these, `Wf`, comes back as it was (`reread_of_wf`). A text has printable characters of ASCII only
(`printable_dumps`).
-/

namespace Json

/-! ## What is read again -/

variable {φ : Type}

mutual

/-- The value that is read where another one was written. -/
def reread : Value φ → Value φ
  | .null => .null
  | .bool b => .bool b
  | .int n => .int n
  | .float x => .float x
  | .str s => .str (rereadStr s)
  | .list items => .list (rereadItems items)
  | .dict members => .dict (dictOf (rereadMembers members))

def rereadItems : List (Value φ) → List (Value φ)
  | [] => []
  | item :: rest => reread item :: rereadItems rest

def rereadMembers : List (Str × Value φ) → List (Str × Value φ)
  | [] => []
  | (key, item) :: rest => (rereadStr key, reread item) :: rereadMembers rest

end

/-- Items are read again one by one. -/
theorem rereadItems_eq_map (items : List (Value φ)) : rereadItems items = items.map reread := by
  induction items with
  | nil => rfl
  | cons item rest ih => rw [rereadItems, ih, List.map_cons]

/-- Members are read again one by one. -/
theorem rereadMembers_eq_map (members : List (Str × Value φ)) : rereadMembers members =
    members.map fun member => (rereadStr member.1, reread member.2) := by
  induction members with
  | nil => rfl
  | cons member rest ih => rw [rereadMembers, ih, List.map_cons]

/-! ## Well-formed values -/

mutual

/-- No string holds a pair of surrogates, and no dict a key twice. -/
def Wf : Value φ → Prop
  | .null | .bool _ | .int _ | .float _ => True
  | .str s => Unpaired s
  | .list items => WfItems items
  | .dict members => (members.map Prod.fst).Nodup ∧ WfMembers members

def WfItems : List (Value φ) → Prop
  | [] => True
  | item :: rest => Wf item ∧ WfItems rest

def WfMembers : List (Str × Value φ) → Prop
  | [] => True
  | (key, item) :: rest => (Unpaired key ∧ Wf item) ∧ WfMembers rest

end

/-- A list is well formed if its items are. -/
theorem wf_list_iff {l : List (Value φ)} : Wf (.list l) ↔ ∀ item ∈ l, Wf item := by
  rw [Wf]
  induction l with
  | nil => simp [WfItems]
  | cons item l ih => rw [WfItems, ih, List.forall_mem_cons]

/-- A dict is well formed if its keys differ and its members are well formed. -/
theorem wf_dict_iff {l : List (Str × Value φ)} : Wf (.dict l) ↔
    (l.map Prod.fst).Nodup ∧ ∀ member ∈ l, Unpaired member.1 ∧ Wf member.2 := by
  rw [Wf]
  refine and_congr_right fun hkeys => ?_
  clear hkeys
  induction l with
  | nil => simp [WfMembers]
  | cons member l ih => rw [WfMembers, ih, List.forall_mem_cons]

/-! ### Dicts -/

/-- A member after `d[key] = item` was there, or is that one. -/
theorem mem_setItem {l : List (Str × Value φ)} {key : Str} {item : Value φ}
    {member : Str × Value φ} (h : member ∈ setItem l key item) :
    member ∈ l ∨ member = (key, item) := by
  rw [setItem] at h
  split_ifs at h with hany
  · obtain ⟨old, hold, heq⟩ := List.mem_map.mp h
    split_ifs at heq with hkey
    · exact .inr heq.symm
    · exact .inl (heq ▸ hold)
  · exact (List.mem_append.mp h).imp_right List.mem_singleton.mp

/-- Setting an item keeps the keys different. -/
theorem nodup_setItem {l : List (Str × Value φ)} (h : (l.map Prod.fst).Nodup) (key : Str)
    (item : Value φ) : ((setItem l key item).map Prod.fst).Nodup := by
  rw [setItem]
  split_ifs with hany
  · have hkeys : (l.map fun member => if member.1 = key then (key, item) else member).map Prod.fst =
        l.map Prod.fst := by
      rw [List.map_map]
      refine List.map_congr_left fun member _ => ?_
      rw [Function.comp_apply]
      split_ifs with hkey
      · exact hkey.symm
      · rfl
    rw [hkeys]
    exact h
  · have hnot : key ∉ l.map Prod.fst := by
      rintro hmem
      obtain ⟨member, hmember, hkey⟩ := List.mem_map.mp hmem
      exact hany (List.any_eq_true.mpr ⟨member, hmember, decide_eq_true hkey⟩)
    rw [List.map_append, List.map_singleton]
    refine List.nodup_append.mpr ⟨h, List.pairwise_singleton _ _, ?_⟩
    rintro a ha b hb rfl
    rw [List.mem_singleton.mp hb] at ha
    exact hnot ha

/-- The members of a dict are pairs of the literal. -/
theorem foldl_setItem_spec (pairs : List (Str × Value φ)) {l : List (Str × Value φ)}
    (h : (l.map Prod.fst).Nodup) :
    ((pairs.foldl (fun l pair => setItem l pair.1 pair.2) l).map Prod.fst).Nodup ∧
      ∀ member ∈ pairs.foldl (fun l pair => setItem l pair.1 pair.2) l,
        member ∈ l ∨ member ∈ pairs := by
  induction pairs generalizing l with
  | nil => exact ⟨h, fun member hmember => .inl hmember⟩
  | cons pair pairs ih =>
      obtain ⟨hnodup, hmem⟩ := ih (nodup_setItem h pair.1 pair.2)
      refine ⟨hnodup, fun member hmember => ?_⟩
      rcases hmem member hmember with hset | hpairs
      · rcases mem_setItem hset with hl | heq
        · exact .inl hl
        · exact .inr (heq ▸ List.mem_cons_self)
      · exact .inr (List.mem_cons_of_mem _ hpairs)

/-- The keys of a dict that was read differ. -/
theorem nodup_dictOf (pairs : List (Str × Value φ)) : ((dictOf pairs).map Prod.fst).Nodup :=
  (foldl_setItem_spec pairs (l := []) List.nodup_nil).1

/-- Its members were read. -/
theorem mem_of_mem_dictOf {pairs : List (Str × Value φ)} {member : Str × Value φ}
    (h : member ∈ dictOf pairs) : member ∈ pairs :=
  ((foldl_setItem_spec pairs (l := []) List.nodup_nil).2 member h).resolve_left List.not_mem_nil

/-- Pairs with different keys are appended in their order. -/
theorem foldl_setItem_of_nodup (pairs : List (Str × Value φ)) {l : List (Str × Value φ)}
    (h : ((l ++ pairs).map Prod.fst).Nodup) :
    pairs.foldl (fun l pair => setItem l pair.1 pair.2) l = l ++ pairs := by
  induction pairs generalizing l with
  | nil => rw [List.foldl_nil, List.append_nil]
  | cons pair pairs ih =>
      have hany : ¬ l.any (·.1 = pair.1) = true := by
        intro hany
        obtain ⟨member, hmember, hkey⟩ := List.any_eq_true.mp hany
        rw [List.map_append, List.map_cons] at h
        exact (List.nodup_append.mp h).2.2 member.1 (List.mem_map_of_mem hmember) pair.1
          List.mem_cons_self (of_decide_eq_true hkey)
      rw [List.foldl_cons, setItem, if_neg hany, ih ?_, List.append_assoc, List.singleton_append]
      rw [List.append_assoc, List.singleton_append]
      exact h

/-- A dict with different keys is what was read. -/
theorem dictOf_of_nodup {pairs : List (Str × Value φ)} (h : (pairs.map Prod.fst).Nodup) :
    dictOf pairs = pairs :=
  foldl_setItem_of_nodup pairs h

/-! ### What comes back as it was -/

/-- A well-formed value is read again as it is. -/
theorem reread_of_wf {v : Value φ} (h : Wf v) : reread v = v := by
  induction v using Value.induct with
  | null | bool | int | float => rfl
  | str s =>
      rw [Wf] at h
      rw [reread, rereadStr_eq_iff.mpr h]
  | list l ih =>
      have hitems := wf_list_iff.mp h
      rw [reread, rereadItems_eq_map, List.map_congr_left fun item hitem => ih item hitem
        (hitems item hitem), List.map_id']
  | dict l ih =>
      obtain ⟨hnodup, hmembers⟩ := wf_dict_iff.mp h
      have hmap : rereadMembers l = l := by
        rw [rereadMembers_eq_map, List.map_congr_left fun member hmember => Prod.ext
          (rereadStr_eq_iff.mpr (hmembers member hmember).1)
          (ih member hmember (hmembers member hmember).2), List.map_id']
      rw [reread, hmap, dictOf_of_nodup hnodup]

/-! ## Reading what was written -/

variable [FloatText φ]

/-- A digit begins no constant. -/
theorem scalar_of_isDigit {c : Char} (hc : c.isDigit = true) (rest : List Char) :
    scalar (φ := φ) (c :: rest) =
      (takeNumber (c :: rest)).bind fun taken => taken.1.value?.map fun v => (v, taken.2) := by
  rw [scalar.eq_def]
  split
  all_goals first
    | rfl
    | (rename_i heq
       rw [(List.cons.inj heq).1] at hc
       exact absurd hc (by decide))

/-- Nor does a minus before a digit. -/
theorem scalar_minus_of_isDigit {c : Char} (hc : c.isDigit = true) (rest : List Char) :
    scalar (φ := φ) ('-' :: c :: rest) =
      (takeNumber ('-' :: c :: rest)).bind fun taken =>
        taken.1.value?.map fun v => (v, taken.2) := by
  rw [scalar.eq_def]
  split
  all_goals first
    | rfl
    | (rename_i heq
       have hhead := (List.cons.inj heq).1
       exact absurd hhead (by decide))
    | (rename_i heq
       have hnext := (List.cons.inj (List.cons.inj heq).2).1
       rw [hnext] at hc
       exact absurd hc (by decide))

/-- A number begins with a digit, or with a minus and a digit. -/
theorem exists_number_text (n : Number) : ∃ (c : Char) (rest : List Char), c.isDigit = true ∧
    (n.text = c :: rest ∨ n.text = '-' :: c :: rest) := by
  obtain ⟨c, digits, hdigits⟩ :=
    List.exists_cons_of_ne_nil (Nat.toDigits_ne_nil (n := n.whole) (b := 10))
  have hc : c.isDigit = true := isDigit_of_mem_toDigits (n := n.whole) (by
    rw [hdigits]
    exact List.mem_cons_self)
  refine ⟨c, digits ++ n.fraction.elim [] (fun digits => '.' :: digits.val) ++
    n.exponent.elim [] Exponent.text, hc, ?_⟩
  rw [Number.text, hdigits]
  cases n.negative
  · exact .inl rfl
  · exact .inr rfl

/-- A number is read where its text stands. -/
theorem scalar_text (n : Number) {rest : List Char} (h : EndsNumber rest) :
    scalar (φ := φ) (n.text ++ rest) = n.value?.map fun v => (v, rest) := by
  have hnumber := takeNumber_text n h
  obtain ⟨c, front, hc, htext | htext⟩ := exists_number_text n
  · rw [htext] at hnumber ⊢
    rw [List.cons_append] at hnumber ⊢
    rw [scalar_of_isDigit hc, hnumber, Option.bind_some]
  · rw [htext] at hnumber ⊢
    rw [List.cons_append, List.cons_append] at hnumber ⊢
    rw [scalar_minus_of_isDigit hc, hnumber, Option.bind_some]

/-- An integer is the number without fraction and exponent. -/
theorem PyInt.text_eq (n : PyInt) :
    PyInt.text n = Number.text ⟨n.val < 0, n.val.natAbs, none, none⟩ := by
  rw [PyInt.text, Number.text, Option.elim_none, Option.elim_none, List.append_nil, List.append_nil]
  by_cases h : n.val < 0 <;> simp [h]

/-- The value of an integer's text. -/
theorem value?_int (n : PyInt) :
    Number.value? (φ := φ) ⟨n.val < 0, n.val.natAbs, none, none⟩ = some (.int n) := by
  obtain ⟨n, hn⟩ := n
  have hsigned : Number.signed ⟨n < 0, n.natAbs, none, none⟩ = n := by
    by_cases h : n < 0
    · simp only [Number.signed, h, decide_true, if_true]
      omega
    · simp only [Number.signed, h, decide_false, Bool.false_eq_true, if_false]
      omega
  rw [Number.value?, dif_neg (fun hfloat => hfloat ⟨rfl, rfl⟩)]
  simp only [hsigned]
  rw [dif_pos hn]

/-- The value of a float's text. -/
theorem value?_float (n : Number) (h : n.IsFloat) :
    n.value? = some (.float (FloatText.ofLiteral (φ := φ) (.number n h))) := by
  rw [Number.value?, dif_pos h]

/-- A scalar is read by its first character. -/
theorem value_of_scalar {fuel : ℕ} {c : Char} (h : c ≠ '"' ∧ c ≠ '[' ∧ c ≠ '{')
    (rest : List Char) : value (φ := φ) (fuel + 1) (c :: rest) = scalar (c :: rest) := by
  obtain ⟨hquote, hbracket, hbrace⟩ := h
  rw [value.eq_def]
  dsimp only
  split
  · exact absurd (List.cons.inj ‹_›).1 hquote
  · exact absurd (List.cons.inj ‹_›).1 hbracket
  · exact absurd (List.cons.inj ‹_›).1 hbrace
  · rfl

/-- A digit opens no string, list or dict. -/
theorem ne_opening_of_isDigit {c : Char} (h : c.isDigit = true) : c ≠ '"' ∧ c ≠ '[' ∧ c ≠ '{' := by
  refine ⟨?_, ?_, ?_⟩
  all_goals
    rintro rfl
    exact absurd h (by decide)

/-- The text of a number is read as its value. -/
theorem value_number (n : Number) {fuel : ℕ} {rest : List Char} (h : EndsNumber rest) :
    value (φ := φ) (fuel + 1) (n.text ++ rest) = n.value?.map fun v => (v, rest) := by
  rw [← scalar_text n h]
  obtain ⟨c, front, hc, htext | htext⟩ := exists_number_text n
  · rw [htext, List.cons_append, value_of_scalar (ne_opening_of_isDigit hc)]
  · rw [htext, List.cons_append, value_of_scalar (by decide)]

/-- A number may end the text. -/
theorem endsNumber_nil : EndsNumber [] := fun _ hc => by cases hc

/-- A number ends before any other character. -/
theorem endsNumber_cons {c : Char} (h : c.isDigit = false ∧ c ≠ '.' ∧ c ≠ 'e' ∧ c ≠ 'E')
    (rest : List Char) : EndsNumber (c :: rest) := by
  intro d hd
  rw [List.head?_cons, Option.mem_some_iff] at hd
  exact hd ▸ h

/-- A value begins neither with a space nor with a closing bracket. -/
theorem exists_dumps (v : Value φ) : ∃ (c : Char) (rest : List Char), dumps v = c :: rest ∧
    isSpace c = false ∧ c ≠ ']' ∧ c ≠ '}' := by
  have hnumber : ∀ n : Number, ∃ (c : Char) (rest : List Char), n.text = c :: rest ∧
      isSpace c = false ∧ c ≠ ']' ∧ c ≠ '}' := by
    intro n
    obtain ⟨c, rest, hc, htext | htext⟩ := exists_number_text n
    · refine ⟨c, rest, htext, ?_, ?_, ?_⟩
      · rw [isSpace, decide_eq_false_iff_not]
        rintro (rfl | rfl | rfl | rfl) <;> exact absurd hc (by decide)
      · rintro rfl
        exact absurd hc (by decide)
      · rintro rfl
        exact absurd hc (by decide)
    · exact ⟨'-', _, htext, by decide, by decide, by decide⟩
  induction v using Value.induct with
  | null => exact ⟨'n', _, rfl, by decide, by decide, by decide⟩
  | bool b =>
      cases b
      · exact ⟨'f', _, rfl, by decide, by decide, by decide⟩
      · exact ⟨'t', _, rfl, by decide, by decide, by decide⟩
  | int n =>
      rw [dumps, PyInt.text_eq]
      exact hnumber _
  | float x =>
      rw [dumps]
      cases FloatText.repr x with
      | nan => exact ⟨'N', _, rfl, by decide, by decide, by decide⟩
      | infinity negative =>
          cases negative
          · exact ⟨'I', _, rfl, by decide, by decide, by decide⟩
          · exact ⟨'-', _, rfl, by decide, by decide, by decide⟩
      | number n h => exact hnumber n
  | str s => exact ⟨'"', _, rfl, by decide, by decide, by decide⟩
  | list items => exact ⟨'[', _, rfl, by decide, by decide, by decide⟩
  | dict members => exact ⟨'{', _, rfl, by decide, by decide, by decide⟩

/-- No space is skipped. -/
theorem skipSpace_cons {c : Char} (h : isSpace c = false) (rest : List Char) :
    skipSpace (c :: rest) = c :: rest := by
  rw [skipSpace, List.dropWhile_cons_of_neg (by simp [h])]

/-- One space is skipped. -/
theorem skipSpace_space (rest : List Char) : skipSpace (' ' :: rest) = skipSpace rest := rfl

/-- A float is read again. -/
theorem value_float (x : φ) {fuel : ℕ} {rest : List Char} (h : EndsNumber rest) :
    value (fuel + 1) ((FloatText.repr x).text ++ rest) = some (.float x, rest) := by
  have hx := FloatText.ofLiteral_repr x
  cases hrepr : FloatText.repr x with
  | nan =>
      rw [hrepr] at hx
      rw [← hx]
      exact value_of_scalar (by decide) _
  | infinity negative =>
      rw [hrepr] at hx
      rw [← hx]
      cases negative
      · exact value_of_scalar (by decide) _
      · exact value_of_scalar (by decide) _
  | number n hfloat =>
      rw [hrepr] at hx
      rw [FloatLiteral.text, value_number n h, value?_float n hfloat, hx, Option.map_some]

/-- An integer is read again. -/
theorem value_int (n : PyInt) {fuel : ℕ} {rest : List Char} (h : EndsNumber rest) :
    value (φ := φ) (fuel + 1) (PyInt.text n ++ rest) = some (.int n, rest) := by
  rw [PyInt.text_eq, value_number _ h, value?_int, Option.map_some]

/-- A string is read again, pairs of surrogates joined. -/
theorem value_str (s : Str) {fuel : ℕ} (rest : List Char) :
    value (φ := φ) (fuel + 1) ('"' :: closing s ++ rest) = some (.str (rereadStr s), rest) := by
  rw [List.cons_append, value, scanString_closing, Option.map_some]

/-- A text without a space in front. -/
theorem skipSpace_dumps (v : Value φ) (rest : List Char) :
    skipSpace (dumps v ++ rest) = dumps v ++ rest := by
  obtain ⟨c, front, hfront, hspace, -⟩ := exists_dumps v
  rw [hfront, List.cons_append, skipSpace_cons hspace]

/-- A list's text begins with its first item. -/
theorem exists_dumpsItems (item : Value φ) (l : List (Value φ)) :
    ∃ rest, dumpsItems (item :: l) = dumps item ++ rest := by
  cases l with
  | nil => exact ⟨_, dumpsItems.eq_2 item⟩
  | cons next l => exact ⟨_, (dumpsItems.eq_3 item next l).trans (List.append_assoc _ _ _)⟩

/-- A dict's text begins with its first key. -/
theorem exists_dumpsMembers (member : Str × Value φ) (l : List (Str × Value φ)) :
    ∃ rest, dumpsMembers (member :: l) = '"' :: closing member.1 ++ ": ".toList ++
      dumps member.2 ++ rest := by
  obtain ⟨key, item⟩ := member
  cases l with
  | nil => exact ⟨_, dumpsMembers.eq_2 key item⟩
  | cons next l => exact ⟨_, (dumpsMembers.eq_3 key item next l).trans (List.append_assoc _ _ _)⟩

/-- The closing bracket is found. -/
theorem after_closed (bracket : Char) (h : isSpace bracket = false) (rest : List Char) :
    after bracket (bracket :: rest) = some (.closed rest) := by
  rw [after, skipSpace_cons h]
  exact if_pos rfl

/-- A comma, a space and the next item. -/
theorem after_more (bracket : Char) (h : ',' ≠ bracket) {rest : List Char}
    (hrest : skipSpace rest = rest) :
    after bracket (", ".toList ++ rest) = some (.more rest) := by
  change after bracket (',' :: ' ' :: rest) = _
  rw [after, skipSpace_cons (by decide)]
  dsimp only
  rw [if_neg h, if_pos rfl, skipSpace_space, hrest]

/-- The colon and the space after it are passed. -/
theorem colon_text {rest : List Char} (hrest : skipSpace rest = rest) :
    colon (": ".toList ++ rest) = some rest := by
  change colon (':' :: ' ' :: rest) = _
  rw [colon, closes, skipSpace_cons (by decide)]
  dsimp only
  rw [if_pos rfl, Option.map_some, skipSpace_space, hrest]

/-- The value is read again, whatever follows it. -/
def ReadBack (v : Value φ) : Prop :=
  ∀ (fuel : ℕ) (rest : List Char), 2 * (dumps v).length ≤ fuel → EndsNumber rest →
    value fuel (dumps v ++ rest) = some (reread v, rest)

/-- The items are read back, each followed by a comma or the bracket. -/
theorem items_dumps {l : List (Value φ)} (hne : l ≠ []) (hread : ∀ item ∈ l, ReadBack item)
    (fuel : ℕ) (rest : List Char) (hfuel : 2 * (dumpsItems l).length ≤ fuel) :
    items fuel (dumpsItems l ++ rest) = some (rereadItems l, rest) := by
  induction l generalizing fuel with
  | nil => exact absurd rfl hne
  | cons item l ih =>
      have hitem := hread item List.mem_cons_self
      cases l with
      | nil =>
          rw [dumpsItems, List.length_append, List.length_singleton] at hfuel
          obtain ⟨fuel, rfl⟩ : ∃ k, fuel = k + 1 := ⟨fuel - 1, by omega⟩
          have hvalue := hitem fuel (']' :: rest) (by omega) (endsNumber_cons (by decide) rest)
          rw [dumpsItems, List.append_assoc, List.singleton_append, items]
          simp only [Option.bind_eq_bind, hvalue, Option.bind_some,
            after_closed ']' (by decide)]
          rfl
      | cons next l =>
          have hcomma : ", ".toList.length = 2 := rfl
          rw [dumpsItems, List.length_append, List.length_append, hcomma] at hfuel
          obtain ⟨fuel, rfl⟩ : ∃ k, fuel = k + 1 := ⟨fuel - 1, by omega⟩
          have hrest := ih (List.cons_ne_nil _ _)
            (fun item h => hread item (List.mem_cons_of_mem _ h)) fuel (by omega)
          have hskip : skipSpace (dumpsItems (next :: l) ++ rest) = dumpsItems (next :: l) ++ rest := by
            obtain ⟨tail, htail⟩ := exists_dumpsItems next l
            rw [htail, List.append_assoc, skipSpace_dumps]
          have hvalue := hitem fuel (", ".toList ++ (dumpsItems (next :: l) ++ rest)) (by omega)
            (endsNumber_cons (by decide) _)
          rw [dumpsItems, List.append_assoc, List.append_assoc, items]
          simp only [Option.bind_eq_bind, hvalue, Option.bind_some,
            after_more ']' (by decide) hskip, hrest]
          rfl

/-- The members are read back in the same way. -/
theorem members_dumps {l : List (Str × Value φ)} (hne : l ≠ [])
    (hread : ∀ member ∈ l, ReadBack member.2) (fuel : ℕ) (rest : List Char)
    (hfuel : 2 * (dumpsMembers l).length ≤ fuel) :
    members fuel (dumpsMembers l ++ rest) = some (rereadMembers l, rest) := by
  have hcolon : ": ".toList.length = 2 := rfl
  have hcomma : ", ".toList.length = 2 := rfl
  induction l generalizing fuel with
  | nil => exact absurd rfl hne
  | cons member l ih =>
      obtain ⟨key, item⟩ := member
      have hitem : ReadBack item := hread (key, item) List.mem_cons_self
      cases l with
      | nil =>
          rw [dumpsMembers] at hfuel
          simp only [List.length_append, List.length_cons, List.length_nil, hcolon] at hfuel
          obtain ⟨fuel, rfl⟩ : ∃ k, fuel = k + 1 := ⟨fuel - 1, by omega⟩
          have hvalue := hitem fuel ('}' :: rest) (by omega) (endsNumber_cons (by decide) rest)
          simp only [dumpsMembers, List.append_assoc, List.cons_append, List.nil_append]
          rw [members, quoted, scanString_closing]
          simp only [Option.bind_eq_bind, Option.bind_some, colon_text (skipSpace_dumps item _),
            hvalue, after_closed '}' (by decide)]
          rfl
      | cons next l =>
          rw [dumpsMembers] at hfuel
          simp only [List.length_append, List.length_cons, hcolon, hcomma] at hfuel
          obtain ⟨fuel, rfl⟩ : ∃ k, fuel = k + 1 := ⟨fuel - 1, by omega⟩
          have hrest := ih (List.cons_ne_nil _ _)
            (fun member h => hread member (List.mem_cons_of_mem _ h)) fuel (by omega)
          have hskip : skipSpace (dumpsMembers (next :: l) ++ rest) =
              dumpsMembers (next :: l) ++ rest := by
            obtain ⟨tail, htail⟩ := exists_dumpsMembers next l
            rw [htail]
            exact skipSpace_cons (by decide) _
          have hvalue := hitem fuel (", ".toList ++ (dumpsMembers (next :: l) ++ rest)) (by omega)
            (endsNumber_cons (by decide) _)
          simp only [dumpsMembers, List.append_assoc, List.cons_append]
          rw [members, quoted, scanString_closing]
          simp only [Option.bind_eq_bind, Option.bind_some, colon_text (skipSpace_dumps item _),
            hvalue, after_more '}' (by decide) hskip, hrest]
          rfl

/-- No value's text begins with a closing bracket. -/
theorem closes_dumps {bracket : Char} (h : bracket = ']' ∨ bracket = '}') (v : Value φ)
    (rest : List Char) : closes bracket (dumps v ++ rest) = none := by
  obtain ⟨c, front, hfront, hspace, hbracket, hbrace⟩ := exists_dumps v
  have hc : c ≠ bracket := by
    rcases h with rfl | rfl
    · exact hbracket
    · exact hbrace
  rw [hfront, List.cons_append, closes, skipSpace_cons hspace]
  exact if_neg hc

/-- A list is read back. -/
theorem value_list {l : List (Value φ)} (hread : ∀ item ∈ l, ReadBack item) {fuel : ℕ}
    (rest : List Char) (hfuel : 2 * (dumpsItems l).length ≤ fuel) :
    value (fuel + 1) ('[' :: dumpsItems l ++ rest) = some (.list (rereadItems l), rest) := by
  rw [List.cons_append, value]
  cases l with
  | nil => rfl
  | cons item l =>
      have hitems := items_dumps (List.cons_ne_nil _ _) hread fuel rest hfuel
      obtain ⟨tail, htail⟩ := exists_dumpsItems item l
      rw [htail, List.append_assoc] at hitems ⊢
      rw [closes_dumps (.inl rfl), skipSpace_dumps, hitems, Option.map_some]

/-- A dict is read back, the last of equal keys kept. -/
theorem value_dict {l : List (Str × Value φ)} (hread : ∀ member ∈ l, ReadBack member.2) {fuel : ℕ}
    (rest : List Char) (hfuel : 2 * (dumpsMembers l).length ≤ fuel) :
    value (fuel + 1) ('{' :: dumpsMembers l ++ rest) =
      some (.dict (dictOf (rereadMembers l)), rest) := by
  rw [List.cons_append, value]
  cases l with
  | nil => rfl
  | cons member l =>
      have hmembers := members_dumps (List.cons_ne_nil _ _) hread fuel rest hfuel
      obtain ⟨tail, htail⟩ := exists_dumpsMembers member l
      have hhead : dumpsMembers (member :: l) ++ rest =
          '"' :: (closing member.1 ++ ": ".toList ++ dumps member.2 ++ tail ++ rest) := by
        rw [htail]
        rfl
      rw [hhead] at hmembers ⊢
      have hcloses : closes '}' ('"' :: (closing member.1 ++ ": ".toList ++ dumps member.2 ++ tail ++
          rest)) = none := rfl
      rw [hcloses, skipSpace_cons (by decide), hmembers, Option.map_some]

/-- **Every value is read back**, by induction on the value. -/
theorem readBack (v : Value φ) : ReadBack v := by
  have hpos : ∀ {v : Value φ} {fuel : ℕ}, 2 * (dumps v).length ≤ fuel → ∃ k, fuel = k + 1 := by
    intro v fuel hfuel
    obtain ⟨c, tail, hdumps, -⟩ := exists_dumps v
    rw [hdumps, List.length_cons] at hfuel
    exact ⟨fuel - 1, by omega⟩
  induction v using Value.induct with
  | null =>
      intro fuel rest hfuel hrest
      obtain ⟨fuel, rfl⟩ := hpos hfuel
      exact value_of_scalar (by decide) _
  | bool b =>
      intro fuel rest hfuel hrest
      obtain ⟨fuel, rfl⟩ := hpos hfuel
      cases b
      · exact value_of_scalar (by decide) _
      · exact value_of_scalar (by decide) _
  | int n =>
      intro fuel rest hfuel hrest
      obtain ⟨fuel, rfl⟩ := hpos hfuel
      exact value_int n hrest
  | float x =>
      intro fuel rest hfuel hrest
      obtain ⟨fuel, rfl⟩ := hpos hfuel
      exact value_float x hrest
  | str s =>
      intro fuel rest hfuel hrest
      obtain ⟨fuel, rfl⟩ := hpos hfuel
      exact value_str s rest
  | list l ih =>
      intro fuel rest hfuel hrest
      rw [dumps, List.length_cons] at hfuel
      obtain ⟨fuel, rfl⟩ : ∃ k, fuel = k + 1 := ⟨fuel - 1, by omega⟩
      exact value_list ih rest (by omega)
  | dict l ih =>
      intro fuel rest hfuel hrest
      rw [dumps, List.length_cons] at hfuel
      obtain ⟨fuel, rfl⟩ : ∃ k, fuel = k + 1 := ⟨fuel - 1, by omega⟩
      exact value_dict ih rest (by omega)

/-- What is written is read, up to pairs of surrogates and repeated keys. -/
theorem loads_dumps (v : Value φ) : loads (dumps v) = some (reread v) := by
  have hskip := skipSpace_dumps v []
  have hvalue := readBack v (2 * (dumps v).length) [] le_rfl endsNumber_nil
  rw [List.append_nil] at hskip hvalue
  rw [loads, hskip, hvalue]
  rfl

/-! ## The characters of a text -/

/-- A printable character of ASCII. -/
def Printable (c : Char) : Prop := 0x20 ≤ c.toNat ∧ c.toNat ≤ 0x7E

instance (c : Char) : Decidable (Printable c) := inferInstanceAs (Decidable (_ ∧ _))

/-- A digit is printable. -/
theorem printable_of_isDigit {c : Char} (h : c.isDigit = true) : Printable c := by
  rw [Char.isDigit, Bool.and_eq_true, decide_eq_true_eq, decide_eq_true_eq] at h
  obtain ⟨h₁, h₂⟩ := h
  have h₁ : 48 ≤ c.toNat := h₁
  have h₂ : c.toNat ≤ 57 := h₂
  exact ⟨by omega, by omega⟩

/-- So are hexadecimal digits. -/
theorem printable_hex4 (n : ℕ) : ∀ c ∈ hex4 n, Printable c := by
  have hdigit : ∀ k < 16, Printable k.digitChar := by decide
  have hmod : ∀ k, Printable (k % 16).digitChar := fun k => hdigit _ (Nat.mod_lt k (by decide))
  rw [hex4, List.forall_mem_cons, List.forall_mem_cons, List.forall_mem_cons,
    List.forall_mem_singleton]
  exact ⟨hmod _, hmod _, hmod _, hmod _⟩

/-- An escaped code point is printable. -/
theorem printable_escape (unit : CodePoint) : ∀ c ∈ escape unit, Printable c := by
  rw [escape]
  split_ifs with h₁ h₂ h₃ h₄ h₅ h₆ h₇ h₈
  iterate 7 exact Strings.forall_of_all (by decide)
  · rw [List.forall_mem_singleton, Printable, toNat_ofNat_of_lt (by omega)]
    exact h₈
  · rw [List.forall_mem_cons, List.forall_mem_cons]
    exact ⟨by decide, by decide, printable_hex4 _⟩

/-- So is the text of a string. -/
theorem printable_closing (s : Str) : ∀ c ∈ closing s, Printable c := by
  rw [closing, List.forall_mem_append, List.forall_mem_flatMap]
  exact ⟨fun unit _ => printable_escape unit, Strings.forall_of_all (by decide)⟩

/-- So is the text of a number. -/
theorem printable_number (n : Number) : ∀ c ∈ n.text, Printable c := by
  have hdigits : ∀ digits : Digits, ∀ c ∈ digits.val, Printable c :=
    fun digits c hc => printable_of_isDigit (digits.property.2 c hc)
  rw [Number.text, List.forall_mem_append, List.forall_mem_append, List.forall_mem_append]
  refine ⟨⟨⟨?_, fun c hc => printable_of_isDigit (isDigit_of_mem_toDigits hc)⟩, ?_⟩, ?_⟩
  · cases n.negative <;> exact Strings.forall_of_all (by decide)
  · cases n.fraction with
    | none => exact fun c hc => absurd hc List.not_mem_nil
    | some digits => exact List.forall_mem_cons.mpr ⟨by decide, hdigits digits⟩
  · cases n.exponent with
    | none => exact fun c hc => absurd hc List.not_mem_nil
    | some e =>
        rw [Option.elim_some, Exponent.text, List.forall_mem_cons, List.forall_mem_append]
        refine ⟨?_, ?_, hdigits e.digits⟩
        · cases e.upper <;> decide
        · cases e.sign with
          | none => exact fun c hc => absurd hc List.not_mem_nil
          | some negative => cases negative <;> exact Strings.forall_of_all (by decide)

/-- So is the text of a float. -/
theorem printable_float (x : FloatLiteral) : ∀ c ∈ x.text, Printable c := by
  cases x with
  | nan => exact Strings.forall_of_all (by decide)
  | infinity negative => cases negative <;> exact Strings.forall_of_all (by decide)
  | number n h => exact printable_number n

/-- So are the texts of items that are. -/
theorem printable_items {l : List (Value φ)} (h : ∀ item ∈ l, ∀ c ∈ dumps item, Printable c) :
    ∀ c ∈ dumpsItems l, Printable c := by
  induction l with
  | nil => exact List.forall_mem_singleton.mpr (by decide)
  | cons item l ih =>
      rw [List.forall_mem_cons] at h
      cases l with
      | nil =>
          rw [dumpsItems, List.forall_mem_append]
          exact ⟨h.1, Strings.forall_of_all (by decide)⟩
      | cons next l =>
          rw [dumpsItems, List.forall_mem_append, List.forall_mem_append]
          exact ⟨⟨h.1, Strings.forall_of_all (by decide)⟩, ih h.2⟩

/-- So are the texts of members that are. -/
theorem printable_members {l : List (Str × Value φ)}
    (h : ∀ member ∈ l, ∀ c ∈ dumps member.2, Printable c) :
    ∀ c ∈ dumpsMembers l, Printable c := by
  induction l with
  | nil => exact List.forall_mem_singleton.mpr (by decide)
  | cons member l ih =>
      obtain ⟨key, item⟩ := member
      rw [List.forall_mem_cons] at h
      have hkey : ∀ c ∈ '"' :: closing key ++ ": ".toList ++ dumps item, Printable c := by
        rw [List.forall_mem_append, List.forall_mem_append, List.forall_mem_cons]
        exact ⟨⟨⟨by decide, printable_closing key⟩, Strings.forall_of_all (by decide)⟩, h.1⟩
      cases l with
      | nil =>
          rw [dumpsMembers, List.forall_mem_append]
          exact ⟨hkey, Strings.forall_of_all (by decide)⟩
      | cons next l =>
          rw [dumpsMembers, List.forall_mem_append, List.forall_mem_append]
          exact ⟨⟨hkey, Strings.forall_of_all (by decide)⟩, ih h.2⟩

/-- What is written is printable ASCII: nothing ends a line. -/
theorem printable_dumps (v : Value φ) : ∀ c ∈ dumps v, Printable c := by
  induction v using Value.induct with
  | null =>
      rw [dumps]
      exact Strings.forall_of_all (by decide)
  | bool b =>
      cases b
      · rw [dumps]
        exact Strings.forall_of_all (by decide)
      · rw [dumps]
        exact Strings.forall_of_all (by decide)
  | int n =>
      rw [dumps, PyInt.text_eq]
      exact printable_number _
  | float x => exact printable_float _
  | str s => exact List.forall_mem_cons.mpr ⟨by decide, printable_closing s⟩
  | list l ih => exact List.forall_mem_cons.mpr ⟨by decide, printable_items ih⟩
  | dict l ih => exact List.forall_mem_cons.mpr ⟨by decide, printable_members ih⟩

end Json
