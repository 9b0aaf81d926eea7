import SyncBack.Formats.JsonTexts

/-!
# What JSON texts hold

`loads` gives well-formed values only (`wf_of_loads`); these are the values that come back as they
were (`loads_dumps_eq_iff`). Its counter never runs out: any larger one reads the same (`value_of_le`).
-/

namespace Json

variable {φ : Type} [FloatText φ]

/-! ## Well-formed values -/

/-- No pair of surrogates is left in a string that was read. -/
theorem unpaired_of_quoted {text : List Char} {key : Str × List Char} (h : quoted text = some key) :
    Unpaired key.1 := by
  rw [quoted.eq_def] at h
  split at h
  · exact unpaired_of_scanString h
  · cases h

/-- A constant, a number or a string is well formed. -/
theorem wf_of_scalar {text : List Char} {parsed : Value φ × List Char}
    (h : scalar text = some parsed) : Wf parsed.1 := by
  have hnumber : ∀ {n : Number} {v : Value φ}, n.value? = some v → Wf v := by
    intro n v hv
    rw [Number.value?] at hv
    split_ifs at hv
    · obtain rfl := Option.some.inj hv
      trivial
    · obtain rfl := Option.some.inj hv
      trivial
  rw [scalar.eq_def] at h
  split at h
  iterate 6
    · obtain rfl := Option.some.inj h
      trivial
  · obtain ⟨taken, -, h⟩ := Option.bind_eq_some_iff.mp h
    obtain ⟨v, hv, rfl⟩ := Option.map_eq_some_iff.mp h
    exact hnumber hv

/-- What the three functions read with a counter is well-formed. -/
theorem wf_of_parsed (fuel : ℕ) :
    (∀ {text : List Char} {parsed : Value φ × List Char}, value fuel text = some parsed →
      Wf parsed.1) ∧
    (∀ {text : List Char} {parsed : List (Value φ) × List Char}, items fuel text = some parsed →
      ∀ item ∈ parsed.1, Wf item) ∧
    (∀ {text : List Char} {parsed : List (Str × Value φ) × List Char},
      members fuel text = some parsed → ∀ member ∈ parsed.1, Unpaired member.1 ∧ Wf member.2) := by
  induction fuel with
  | zero =>
      refine ⟨?_, ?_, ?_⟩
      all_goals
        intro text parsed h
        cases h
  | succ fuel ih =>
      obtain ⟨ihvalue, ihitems, ihmembers⟩ := ih
      refine ⟨@fun text parsed h => ?_, @fun text parsed h => ?_, @fun text parsed h => ?_⟩
      · rw [value.eq_def] at h
        dsimp only at h
        split at h
        · obtain ⟨scanned, hscanned, rfl⟩ := Option.map_eq_some_iff.mp h
          exact unpaired_of_scanString hscanned
        · split at h
          · obtain rfl := Option.some.inj h
            exact wf_list_iff.mpr fun item hitem => absurd hitem List.not_mem_nil
          · obtain ⟨read, hread, rfl⟩ := Option.map_eq_some_iff.mp h
            exact wf_list_iff.mpr (ihitems hread)
        · split at h
          · obtain rfl := Option.some.inj h
            exact wf_dict_iff.mpr ⟨List.nodup_nil, fun member hmem => absurd hmem List.not_mem_nil⟩
          · obtain ⟨read, hread, rfl⟩ := Option.map_eq_some_iff.mp h
            exact wf_dict_iff.mpr ⟨nodup_dictOf read.1,
              fun member hmem => ihmembers hread member (mem_of_mem_dictOf hmem)⟩
        · exact wf_of_scalar h
      · rw [items] at h
        obtain ⟨item, hitem, h⟩ := Option.bind_eq_some_iff.mp h
        obtain ⟨next, -, h⟩ := Option.bind_eq_some_iff.mp h
        cases next with
        | closed rest =>
            obtain rfl := Option.some.inj h
            exact List.forall_mem_singleton.mpr (ihvalue hitem)
        | more rest =>
            obtain ⟨read, hread, h⟩ := Option.bind_eq_some_iff.mp h
            obtain rfl := Option.some.inj h
            exact List.forall_mem_cons.mpr ⟨ihvalue hitem, ihitems hread⟩
      · rw [members] at h
        obtain ⟨key, hkey, h⟩ := Option.bind_eq_some_iff.mp h
        obtain ⟨tail, -, h⟩ := Option.bind_eq_some_iff.mp h
        obtain ⟨item, hitem, h⟩ := Option.bind_eq_some_iff.mp h
        obtain ⟨next, -, h⟩ := Option.bind_eq_some_iff.mp h
        have hmember : Unpaired key.1 ∧ Wf item.1 := ⟨unpaired_of_quoted hkey, ihvalue hitem⟩
        cases next with
        | closed rest =>
            obtain rfl := Option.some.inj h
            exact List.forall_mem_singleton.mpr hmember
        | more rest =>
            obtain ⟨read, hread, h⟩ := Option.bind_eq_some_iff.mp h
            obtain rfl := Option.some.inj h
            exact List.forall_mem_cons.mpr ⟨hmember, ihmembers hread⟩

/-- **Whatever is read is well formed.** -/
theorem wf_of_loads {text : List Char} {v : Value φ} (h : loads text = some v) : Wf v := by
  rw [loads] at h
  cases hvalue : value (φ := φ) (2 * text.length) (skipSpace text) with
  | none =>
      rw [hvalue] at h
      cases h
  | some parsed =>
      rw [hvalue] at h
      dsimp only at h
      split_ifs at h
      obtain rfl := Option.some.inj h
      exact (wf_of_parsed _).1 hvalue

/-- A value comes back as it was just when it is well-formed. -/
theorem loads_dumps_eq_iff {v : Value φ} : loads (dumps v) = some v ↔ Wf v := by
  constructor
  · exact wf_of_loads
  · intro h
    rw [loads_dumps, reread_of_wf h]

/-! ## The counter -/

/-- What a literal leaves is shorter than what it was given. -/
theorem scanUnits_length {text : List Char} {scanned : List CodePoint × List Char}
    (h : scanUnits text = some scanned) : scanned.2.length < text.length := by
  have step : ∀ (unit : Option CodePoint) {rest : List Char} {scanned : List CodePoint × List Char},
      (∀ {read : List CodePoint × List Char}, scanUnits rest = some read →
        read.2.length < rest.length) →
      (unit.bind fun u => (scanUnits rest).bind fun read => some (u :: read.1, read.2)) =
        some scanned → scanned.2.length < rest.length := by
    intro unit rest scanned ih h
    obtain ⟨u, -, h⟩ := Option.bind_eq_some_iff.mp h
    obtain ⟨read, hread, h⟩ := Option.bind_eq_some_iff.mp h
    obtain rfl := Option.some.inj h
    have hlt := ih hread
    exact hlt
  induction text using scanUnits.induct generalizing scanned with
  | case1 => cases h
  | case2 rest =>
      obtain rfl := Option.some.inj h
      exact Nat.lt_succ_self _
  | case3 a b c d rest ih =>
      have := step _ ih h
      simp only [List.length_cons]
      omega
  | case4 c rest hu ih =>
      rw [scanUnits] at h
      · have := step _ ih h
        simp only [List.length_cons]
        omega
      · exact hu
  | case5 c rest hquote hu hslash hc =>
      rw [scanUnits, if_pos hc] at h
      · cases h
      · exact hquote
      · exact hu
      · exact hslash
  | case6 c rest hquote hu hslash hc ih =>
      rw [scanUnits, if_neg hc] at h
      · have := step (some (.ofChar c)) ih h
        simp only [List.length_cons]
        omega
      · exact hquote
      · exact hu
      · exact hslash

/-- Reading a string takes at least its closing quotation mark. -/
theorem scanString_length {text : List Char} {scanned : Str × List Char}
    (h : scanString text = some scanned) : scanned.2.length < text.length := by
  obtain ⟨us, hus, rfl⟩ := Option.map_eq_some_iff.mp h
  have hlt := scanUnits_length hus
  exact hlt

/-- Reading a quoted key takes something. -/
theorem quoted_length {text : List Char} {key : Str × List Char} (h : quoted text = some key) :
    key.2.length < text.length := by
  rw [quoted.eq_def] at h
  split at h
  · exact Nat.lt_succ_of_lt (scanString_length h)
  · cases h

/-- Skipping spaces adds nothing. -/
theorem skipSpace_length (text : List Char) : (skipSpace text).length ≤ text.length :=
  (List.dropWhile_suffix _).length_le

/-- Closing a bracket takes it. -/
theorem closes_length {bracket : Char} {text rest : List Char} (h : closes bracket text = some rest) :
    rest.length < text.length := by
  have hskip := skipSpace_length text
  rw [closes] at h
  cases hs : skipSpace text with
  | nil =>
      rw [hs] at h
      cases h
  | cons c tail =>
      rw [hs, List.length_cons] at hskip
      rw [hs] at h
      dsimp only at h
      split_ifs at h
      obtain rfl := Option.some.inj h
      omega

/-- A colon is taken. -/
theorem colon_length {text rest : List Char} (h : colon text = some rest) :
    rest.length < text.length := by
  obtain ⟨tail, htail, rfl⟩ := Option.map_eq_some_iff.mp h
  exact lt_of_le_of_lt (skipSpace_length tail) (closes_length htail)

/-- The text that goes on. -/
def Next.rest : Next → List Char
  | .closed rest => rest
  | .more rest => rest

/-- What comes after a value is taken. -/
theorem after_length {bracket : Char} {text : List Char} {next : Next}
    (h : after bracket text = some next) : next.rest.length < text.length := by
  have hskip := skipSpace_length text
  rw [after] at h
  cases hs : skipSpace text with
  | nil =>
      rw [hs] at h
      cases h
  | cons c tail =>
      rw [hs, List.length_cons] at hskip
      rw [hs] at h
      dsimp only at h
      split_ifs at h
      · obtain rfl := Option.some.inj h
        exact hskip
      · obtain rfl := Option.some.inj h
        exact lt_of_le_of_lt (skipSpace_length tail) hskip

/-- Digits are taken. -/
theorem takeDigits_length {text : List Char} {taken : Digits × List Char}
    (h : takeDigits text = some taken) : taken.2.length < text.length := by
  rw [takeDigits] at h
  split_ifs at h with hnil
  obtain rfl := Option.some.inj h
  have hsum := congrArg List.length (List.takeWhile_append_dropWhile (p := Char.isDigit) (l := text))
  rw [List.length_append] at hsum
  have hpos := List.length_pos_of_ne_nil hnil
  change (text.dropWhile Char.isDigit).length < text.length
  omega

/-- A whole number is taken. -/
theorem takeWhole_length {text : List Char} {taken : ℕ × List Char} (h : takeWhole text = some taken) :
    taken.2.length < text.length := by
  rw [takeWhole.eq_def] at h
  split at h
  · obtain rfl := Option.some.inj h
    exact Nat.lt_succ_self _
  · obtain ⟨digits, hdigits, rfl⟩ := Option.map_eq_some_iff.mp h
    exact takeDigits_length hdigits

/-- A fraction takes what it has. -/
theorem takeFraction_length (text : List Char) : (takeFraction text).2.length ≤ text.length := by
  rw [takeFraction.eq_def]
  split
  · split
    · rename_i htaken
      exact Nat.le_succ_of_le (takeDigits_length htaken).le
    · exact le_rfl
  · exact le_rfl

/-- A sign takes what it has. -/
theorem takeSign_length (text : List Char) : (takeSign text).2.length ≤ text.length := by
  rw [takeSign.eq_def]
  split
  · exact Nat.le_succ _
  · exact Nat.le_succ _
  · exact le_rfl

/-- An exponent takes what it has. -/
theorem takeExponent_length (text : List Char) : (takeExponent text).2.length ≤ text.length := by
  cases text with
  | nil => exact le_rfl
  | cons c rest =>
      rw [takeExponent]
      split_ifs
      · split
        · rename_i htaken
          have hdigits := takeDigits_length htaken
          have hsign := takeSign_length rest
          exact Nat.le_succ_of_le (lt_of_lt_of_le hdigits hsign).le
        · exact le_rfl
      · exact le_rfl

/-- A minus takes what it has. -/
theorem takeMinus_length (text : List Char) : (takeMinus text).2.length ≤ text.length := by
  rw [takeMinus.eq_def]
  split
  · exact Nat.le_succ _
  · exact le_rfl

/-- A number is taken. -/
theorem takeNumber_length {text : List Char} {taken : Number × List Char}
    (h : takeNumber text = some taken) : taken.2.length < text.length := by
  obtain ⟨whole, hwhole, h⟩ := Option.bind_eq_some_iff.mp h
  obtain rfl := Option.some.inj h
  have := takeWhole_length hwhole
  have := takeMinus_length text
  have := takeFraction_length whole.2
  have := takeExponent_length (takeFraction whole.2).2
  change (takeExponent (takeFraction whole.2).2).2.length < text.length
  omega

/-- A scalar is taken. -/
theorem scalar_length {text : List Char} {parsed : Value φ × List Char}
    (h : scalar text = some parsed) : parsed.2.length < text.length := by
  rw [scalar.eq_def] at h
  split at h
  iterate 6
    · obtain rfl := Option.some.inj h
      simp only [List.length_cons]
      omega
  · obtain ⟨taken, htaken, h⟩ := Option.bind_eq_some_iff.mp h
    obtain ⟨v, hv, rfl⟩ := Option.map_eq_some_iff.mp h
    exact takeNumber_length htaken

/-- **Every value takes something**, by induction on the fuel. -/
theorem parsed_length (fuel : ℕ) :
    (∀ {text : List Char} {parsed : Value φ × List Char}, value fuel text = some parsed →
      parsed.2.length < text.length) ∧
    (∀ {text : List Char} {parsed : List (Value φ) × List Char}, items fuel text = some parsed →
      parsed.2.length < text.length) ∧
    (∀ {text : List Char} {parsed : List (Str × Value φ) × List Char},
      members fuel text = some parsed → parsed.2.length < text.length) := by
  induction fuel with
  | zero =>
      refine ⟨?_, ?_, ?_⟩
      all_goals
        intro text parsed h
        cases h
  | succ fuel ih =>
      obtain ⟨ihvalue, ihitems, ihmembers⟩ := ih
      refine ⟨@fun text parsed h => ?_, @fun text parsed h => ?_, @fun text parsed h => ?_⟩
      · rw [value.eq_def] at h
        dsimp only at h
        split at h
        · obtain ⟨scanned, hscanned, rfl⟩ := Option.map_eq_some_iff.mp h
          exact Nat.lt_succ_of_lt (scanString_length hscanned)
        · rename_i rest
          have hskip := skipSpace_length rest
          split at h
          · rename_i hcloses
            obtain rfl := Option.some.inj h
            exact Nat.lt_succ_of_lt (closes_length hcloses)
          · obtain ⟨read, hread, rfl⟩ := Option.map_eq_some_iff.mp h
            exact Nat.lt_succ_of_lt (lt_of_lt_of_le (ihitems hread) hskip)
        · rename_i rest
          have hskip := skipSpace_length rest
          split at h
          · rename_i hcloses
            obtain rfl := Option.some.inj h
            exact Nat.lt_succ_of_lt (closes_length hcloses)
          · obtain ⟨read, hread, rfl⟩ := Option.map_eq_some_iff.mp h
            exact Nat.lt_succ_of_lt (lt_of_lt_of_le (ihmembers hread) hskip)
        · exact scalar_length h
      · rw [items] at h
        obtain ⟨item, hitem, h⟩ := Option.bind_eq_some_iff.mp h
        obtain ⟨next, hnext, h⟩ := Option.bind_eq_some_iff.mp h
        have hlength := lt_trans (after_length hnext) (ihvalue hitem)
        cases next with
        | closed rest =>
            obtain rfl := Option.some.inj h
            exact hlength
        | more rest =>
            obtain ⟨read, hread, h⟩ := Option.bind_eq_some_iff.mp h
            obtain rfl := Option.some.inj h
            have hread := ihitems hread
            exact lt_trans hread hlength
      · rw [members] at h
        obtain ⟨key, hkey, h⟩ := Option.bind_eq_some_iff.mp h
        obtain ⟨tail, htail, h⟩ := Option.bind_eq_some_iff.mp h
        obtain ⟨item, hitem, h⟩ := Option.bind_eq_some_iff.mp h
        obtain ⟨next, hnext, h⟩ := Option.bind_eq_some_iff.mp h
        have hlength := lt_trans (lt_trans (after_length hnext) (ihvalue hitem))
          (lt_trans (colon_length htail) (quoted_length hkey))
        cases next with
        | closed rest =>
            obtain rfl := Option.some.inj h
            exact hlength
        | more rest =>
            obtain ⟨read, hread, h⟩ := Option.bind_eq_some_iff.mp h
            obtain rfl := Option.some.inj h
            have hread := ihmembers hread
            exact lt_trans hread hlength

/-- The counters that are large enough for a text all read the same. -/
theorem parsed_of_le (fuel : ℕ) : ∀ {fuel' : ℕ} {text : List Char},
    (2 * text.length ≤ fuel → 2 * text.length ≤ fuel' →
      value (φ := φ) fuel text = value fuel' text) ∧
    (2 * text.length < fuel → 2 * text.length < fuel' →
      items (φ := φ) fuel text = items fuel' text) ∧
    (2 * text.length < fuel → 2 * text.length < fuel' →
      members (φ := φ) fuel text = members fuel' text) := by
  induction fuel with
  | zero =>
      intro fuel' text
      refine ⟨fun h h' => ?_, fun h => absurd h (Nat.not_lt_zero _),
        fun h => absurd h (Nat.not_lt_zero _)⟩
      obtain rfl : text = [] := List.length_eq_zero_iff.mp (by omega)
      cases fuel' with
      | zero => rfl
      | succ fuel' => rfl
  | succ fuel ih =>
      intro fuel' text
      refine ⟨fun h h' => ?_, fun h h' => ?_, fun h h' => ?_⟩
      · cases text with
        | nil =>
            cases fuel' with
            | zero => rfl
            | succ fuel' => rfl
        | cons c rest =>
            rw [List.length_cons] at h h'
            obtain ⟨fuel', rfl⟩ : ∃ k, fuel' = k + 1 := ⟨fuel' - 1, by omega⟩
            have hskip := skipSpace_length rest
            have hitems := (@ih fuel' (skipSpace rest)).2.1 (by omega) (by omega)
            have hmembers := (@ih fuel' (skipSpace rest)).2.2 (by omega) (by omega)
            rw [value.eq_def, value.eq_def]
            dsimp only
            split
            · rfl
            · obtain rfl := (List.cons.inj ‹_›).2
              rw [hitems]
            · obtain rfl := (List.cons.inj ‹_›).2
              rw [hmembers]
            · rfl
      · obtain ⟨fuel', rfl⟩ : ∃ k, fuel' = k + 1 := ⟨fuel' - 1, by omega⟩
        have hvalue := (@ih fuel' text).1 (by omega) (by omega)
        rw [items, items, hvalue]
        refine Option.bind_congr fun item hitem => Option.bind_congr fun next hnext => ?_
        have hlength := lt_trans (after_length hnext) ((parsed_length fuel').1 hitem)
        cases next with
        | closed rest => rfl
        | more rest =>
            have hrest : rest.length < text.length := hlength
            dsimp only
            rw [(@ih fuel' rest).2.1 (by omega) (by omega)]
      · obtain ⟨fuel', rfl⟩ : ∃ k, fuel' = k + 1 := ⟨fuel' - 1, by omega⟩
        rw [members, members]
        refine Option.bind_congr fun key hkey => Option.bind_congr fun tail htail => ?_
        have htext := lt_trans (colon_length htail) (quoted_length hkey)
        rw [(@ih fuel' tail).1 (by omega) (by omega)]
        refine Option.bind_congr fun item hitem => Option.bind_congr fun next hnext => ?_
        have hlength := lt_trans (after_length hnext) ((parsed_length fuel').1 hitem)
        cases next with
        | closed rest => rfl
        | more rest =>
            have hrest : rest.length < tail.length := hlength
            dsimp only
            rw [(@ih fuel' rest).2.2 (by omega) (by omega)]

/-- A larger counter reads nothing more. -/
theorem value_of_le {text : List Char} {fuel : ℕ} (h : 2 * text.length ≤ fuel) :
    value (φ := φ) fuel (skipSpace text) = value (2 * text.length) (skipSpace text) := by
  have hskip := skipSpace_length text
  exact (parsed_of_le fuel).1 (by omega) (by omega)

end Json
