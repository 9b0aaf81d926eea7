import Mathlib.Data.List.Chain
import SyncBack.Formats.Json
import SyncBack.Net.IpAddress

/-!
# Strings and numbers of JSON

The literal of a string is read as the string whose pairs of surrogates are joined
(`scanString_closing`), which is the same one where there are none (`rereadStr_eq_iff`). A number is
read as it was written where the text does not go on with it (`takeNumber_text`).
-/

namespace Json

/-! ## Strings -/

/-- A number in the range of code points is kept. -/
theorem val_ofNat_of_lt {n : ℕ} (h : n < 0x110000) : (Fin.ofNat 0x110000 n).val = n := by
  rw [Fin.val_ofNat, Nat.mod_eq_of_lt h]

/-- The characters of a text are no surrogates. -/
theorem not_surrogate (c : Char) : ¬ ((CodePoint.ofChar c).IsHigh ∨ (CodePoint.ofChar c).IsLow) := by
  have hvalid := c.valid
  rintro (⟨h₁, h₂⟩ | ⟨h₁, h₂⟩)
  · change 0xD800 ≤ c.val.toNat at h₁
    change c.val.toNat < 0xDC00 at h₂
    rcases hvalid with h | h <;> omega
  · change 0xDC00 ≤ c.val.toNat at h₁
    change c.val.toNat < 0xE000 at h₂
    rcases hvalid with h | h <;> omega

/-- A text has no surrogates, and so no pair of them. -/
theorem unpaired_ofText (text : List Char) : Unpaired (Str.ofText text) := by
  rw [Str.ofText, Unpaired]
  induction text with
  | nil => exact .nil
  | cons c text ih =>
      refine ih.cons fun next _ hpair => ?_
      exact not_surrogate c (.inl hpair.1)

/-- A text as a string is that text. -/
theorem text?_ofText (text : List Char) : (Str.ofText text).text? = some text := by
  induction text with
  | nil => rfl
  | cons c text ih =>
      rw [Str.text?, Str.ofText, List.map_cons, List.mapM_cons, if_neg (not_surrogate c)]
      rw [Str.text?, Str.ofText] at ih
      rw [ih]
      change some (Char.ofNat c.toNat :: text) = _
      rw [Char.ofNat_toNat]

/-- A string is a text unless a surrogate stands in it. -/
theorem text?_eq_none_iff {s : Str} : s.text? = none ↔ ∃ c ∈ s, c.IsHigh ∨ c.IsLow := by
  induction s with
  | nil => simp [Str.text?]
  | cons c s ih =>
      rw [Str.text?] at ih ⊢
      rw [List.mapM_cons]
      by_cases hc : c.IsHigh ∨ c.IsLow
      · rw [if_pos hc]
        exact iff_of_true rfl ⟨c, List.mem_cons_self, hc⟩
      · rw [if_neg hc]
        simp only [List.exists_mem_cons_iff, hc, false_or, ← ih]
        cases List.mapM (fun c => if CodePoint.IsHigh c ∨ CodePoint.IsLow c then none
          else some (Char.ofNat c.val)) s <;> simp

/-- Texts are put together as strings are. -/
theorem Str.ofText_append (a b : List Char) :
    Str.ofText (a ++ b) = Str.ofText a ++ Str.ofText b := List.map_append

/-- A code point of the basic plane is one unit. -/
theorem units_of_lt {c : CodePoint} (h : c.val < 0x10000) : units c = [c] := if_pos h

/-- Any other is a pair of surrogates, which are joined to it again. -/
theorem exists_units_of_le {c : CodePoint} (h : 0x10000 ≤ c.val) : ∃ high low : CodePoint,
    units c = [high, low] ∧ high.IsHigh ∧ low.IsLow ∧ joined high low = c := by
  have hlt := c.isLt
  have hhigh := val_ofNat_of_lt (n := 0xD800 + (c.val - 0x10000) / 0x400) (by omega)
  have hlow := val_ofNat_of_lt (n := 0xDC00 + (c.val - 0x10000) % 0x400) (by omega)
  refine ⟨_, _, if_neg (by omega), ?_, ?_, ?_⟩
  · rw [CodePoint.IsHigh, hhigh]
    omega
  · rw [CodePoint.IsLow, hlow]
    omega
  · apply Fin.ext
    rw [joined, hhigh, hlow, val_ofNat_of_lt (by omega)]
    omega

/-- Every unit of a string has 16 bits. -/
theorem lt_of_mem_units {s : Str} {unit : CodePoint} (h : unit ∈ s.flatMap units) :
    unit.val < 0x10000 := by
  obtain ⟨c, -, hunit⟩ := List.mem_flatMap.mp h
  by_cases hc : c.val < 0x10000
  · rw [units_of_lt hc, List.mem_singleton] at hunit
    rw [hunit]
    exact hc
  · obtain ⟨high, low, hunits, hhigh, hlow, -⟩ := exists_units_of_le (not_lt.mp hc)
    rw [hunits] at hunit
    rcases List.mem_pair.mp hunit with rfl | rfl
    · exact lt_trans hhigh.2 (by decide)
    · exact lt_trans hlow.2 (by decide)

/-- A pair is joined. -/
theorem joinPairs_pair {high low : CodePoint} (hhigh : high.IsHigh) (hlow : low.IsLow)
    (rest : List CodePoint) :
    joinPairs (high :: low :: rest) = joined high low :: joinPairs rest := by
  rw [joinPairs, if_pos ⟨hhigh, hlow⟩]

/-- A unit that begins no pair stays. -/
theorem joinPairs_cons {c : CodePoint} {rest : List CodePoint}
    (h : ∀ next ∈ rest.head?, ¬ (c.IsHigh ∧ next.IsLow)) :
    joinPairs (c :: rest) = c :: joinPairs rest := by
  cases rest with
  | nil => rfl
  | cons next rest => rw [joinPairs, if_neg (h next rfl)]

/-- What is joined lies beyond the basic plane. -/
theorem val_joined (high low : CodePoint) (hhigh : high.IsHigh) (hlow : low.IsLow) :
    0x10000 ≤ (joined high low).val := by
  obtain ⟨h₁, h₂⟩ := hhigh
  obtain ⟨h₃, h₄⟩ := hlow
  rw [joined, val_ofNat_of_lt (by omega)]
  omega

/-- A code point beyond the basic plane is no high surrogate. -/
theorem not_isHigh_of_le {c : CodePoint} (h : 0x10000 ≤ c.val) : ¬ c.IsHigh := by
  intro hhigh
  have := hhigh.2
  omega

/-- Nor is it a low one. -/
theorem not_isLow_of_le {c : CodePoint} (h : 0x10000 ≤ c.val) : ¬ c.IsLow := by
  intro hlow
  have := hlow.2
  omega

/-- What comes first after joining is what came first, or no surrogate. -/
theorem head?_joinPairs (us : List CodePoint) : ∀ c ∈ (joinPairs us).head?,
    c ∈ us.head? ∨ 0x10000 ≤ c.val := by
  intro c hc
  induction us using joinPairs.induct with
  | case1 => exact .inl hc
  | case2 d => exact .inl hc
  | case3 high low rest hpair =>
      rw [joinPairs_pair hpair.1 hpair.2, List.head?_cons, Option.mem_some_iff] at hc
      exact .inr (hc ▸ val_joined high low hpair.1 hpair.2)
  | case4 high low rest hpair =>
      rw [joinPairs, if_neg hpair, List.head?_cons] at hc
      exact .inl hc

/-- No pair begins at the head, and none after it. -/
theorem unpaired_cons {c : CodePoint} {s : Str} :
    Unpaired (c :: s) ↔ (∀ next ∈ s.head?, ¬ (c.IsHigh ∧ next.IsLow)) ∧ Unpaired s := by
  rw [Unpaired, List.isChain_cons]
  rfl

/-- Joining leaves no pair behind. -/
theorem unpaired_joinPairs (us : List CodePoint) : Unpaired (joinPairs us) := by
  induction us using joinPairs.induct with
  | case1 => exact .nil
  | case2 c => exact .singleton c
  | case3 high low rest hpair ih =>
      rw [joinPairs_pair hpair.1 hpair.2, unpaired_cons]
      refine ⟨?_, ih⟩
      rintro next - ⟨hhigh, -⟩
      exact not_isHigh_of_le (val_joined high low hpair.1 hpair.2) hhigh
  | case4 high low rest hpair ih =>
      rw [joinPairs, if_neg hpair, unpaired_cons]
      refine ⟨?_, ih⟩
      intro next hnext hpair'
      rcases head?_joinPairs (low :: rest) next hnext with hlow | hle
      · rw [List.head?_cons, Option.mem_some_iff] at hlow
        exact hpair (hlow ▸ hpair')
      · exact not_isLow_of_le hle hpair'.2

/-- A string without pairs is what its units are joined to. -/
theorem joinPairs_units {s : Str} (h : Unpaired s) : joinPairs (s.flatMap units) = s := by
  induction s with
  | nil => rfl
  | cons c s ih =>
      obtain ⟨hhead, hs⟩ := unpaired_cons.mp h
      specialize ih hs
      rw [List.flatMap_cons]
      by_cases hc : c.val < 0x10000
      · rw [units_of_lt hc, List.singleton_append, joinPairs_cons ?_, ih]
        -- the first unit after `c` is the next character, or the first half of a pair
        intro next hnext
        cases s with
        | nil => simp at hnext
        | cons d s =>
            by_cases hd : d.val < 0x10000
            · rw [List.flatMap_cons, units_of_lt hd, List.singleton_append, List.head?_cons,
                Option.mem_some_iff] at hnext
              exact hhead next (by rw [List.head?_cons, Option.mem_some_iff, hnext])
            · obtain ⟨high, low, hunits, hhigh, -, -⟩ := exists_units_of_le (not_lt.mp hd)
              rw [List.flatMap_cons, hunits, List.cons_append, List.head?_cons,
                Option.mem_some_iff] at hnext
              rintro ⟨-, hlow⟩
              have := hhigh.2
              have := hlow.1
              rw [← hnext] at *
              omega
      · obtain ⟨high, low, hunits, hhigh, hlow, hjoined⟩ := exists_units_of_le (not_lt.mp hc)
        rw [hunits, List.cons_append, List.singleton_append, joinPairs_pair hhigh hlow, hjoined, ih]

/-- The string that is read where `s` was written. -/
def rereadStr (s : Str) : Str := joinPairs (s.flatMap units)

/-- A string is read as it was written exactly when it has no pair of surrogates. -/
theorem rereadStr_eq_iff {s : Str} : rereadStr s = s ↔ Unpaired s := by
  constructor
  · intro h
    rw [← h]
    exact unpaired_joinPairs _
  · exact joinPairs_units

/-! ### Escapes -/

/-- A hexadecimal digit has its value. -/
theorem hexValue_digitChar : ∀ n < 16, Percent.hexValue n.digitChar = some n := by decide

/-- The four digits of a unit give the unit. -/
theorem hex4Value_hex4 {unit : CodePoint} (h : unit.val < 0x10000) {a b c d : Char}
    (heq : hex4 unit.val = [a, b, c, d]) : hex4Value a b c d = some unit := by
  obtain ⟨rfl, rfl, rfl, rfl⟩ : _ = a ∧ _ = b ∧ _ = c ∧ _ = d := by
    simpa only [hex4, List.cons.injEq, and_true] using heq
  rw [hex4Value, hexValue_digitChar _ (Nat.mod_lt _ (by decide)),
    hexValue_digitChar _ (Nat.mod_lt _ (by decide)),
    hexValue_digitChar _ (Nat.mod_lt _ (by decide)),
    hexValue_digitChar _ (Nat.mod_lt _ (by decide))]
  simp only [Option.bind_eq_bind, Option.bind_some, Option.pure_def, Option.some.injEq]
  apply Fin.ext
  rw [val_ofNat_of_lt (by omega)]
  omega

/-- A number below the surrogates is the code of its character. -/
theorem toNat_ofNat_of_lt {n : ℕ} (h : n < 0xD800) : (Char.ofNat n).toNat = n := by
  have hvalid : n.isValidChar := .inl h
  rw [Char.ofNat, dif_pos hvalid]
  rfl

/-- A printable character other than the quotation mark and the backslash stands for itself. -/
theorem scanUnits_plain {c : Char} (hle : 0x20 ≤ c.toNat) (hquote : c ≠ '"') (hslash : c ≠ '\\')
    (rest : List Char) : scanUnits (c :: rest) =
      (scanUnits rest).map fun scanned => (.ofChar c :: scanned.1, scanned.2) := by
  rw [scanUnits.eq_def]
  split
  · cases ‹_ :: _ = []›
  · simp_all
  · simp_all
  · simp_all
  · rename_i heq
    obtain ⟨rfl, rfl⟩ := List.cons.inj heq
    rw [if_neg (by simp only [hslash, or_false]; omega)]
    cases scanUnits _ <;> rfl

/-- An escaped unit is read as that unit. -/
theorem scanUnits_escape {unit : CodePoint} (h : unit.val < 0x10000) (rest : List Char) :
    scanUnits (escape unit ++ rest) =
      (scanUnits rest).map fun scanned => (unit :: scanned.1, scanned.2) := by
  have short : ∀ {c : Char} {u : CodePoint}, c ≠ 'u' → shortEscape c = some u →
      scanUnits ('\\' :: c :: rest) =
        (scanUnits rest).map fun scanned => (u :: scanned.1, scanned.2) := by
    intro c u hc hshort
    rw [scanUnits.eq_def]
    split
    · cases ‹_ :: _ = []›
    · simp_all
    · simp_all
    · rename_i heq
      obtain ⟨-, heq⟩ := List.cons.inj heq
      obtain ⟨rfl, rfl⟩ := List.cons.inj heq
      rw [hshort]
      cases scanUnits _ <;> rfl
    · rename_i hslash heq
      obtain ⟨rfl, rfl⟩ := List.cons.inj heq
      exact absurd rfl (hslash c rest rfl)
  have val_eq : ∀ {n : ℕ} (hn : n < 0x110000), unit.val = n → unit = ⟨n, hn⟩ :=
    fun _ heq => Fin.ext heq
  rw [escape]
  split_ifs with h₁ h₂ h₃ h₄ h₅ h₆ h₇ h₈
  · rw [val_eq (by decide) h₁]
    exact short (by decide) rfl
  · rw [val_eq (by decide) h₂]
    exact short (by decide) rfl
  · rw [val_eq (by decide) h₃]
    exact short (by decide) rfl
  · rw [val_eq (by decide) h₄]
    exact short (by decide) rfl
  · rw [val_eq (by decide) h₅]
    exact short (by decide) rfl
  · rw [val_eq (by decide) h₆]
    exact short (by decide) rfl
  · rw [val_eq (by decide) h₇]
    exact short (by decide) rfl
  · have hchar := toNat_ofNat_of_lt (n := unit.val) (by omega)
    have hofChar : CodePoint.ofChar (Char.ofNat unit.val) = unit := Fin.ext hchar
    rw [List.singleton_append, scanUnits_plain (by omega) ?_ ?_, hofChar]
    · intro heq
      rw [heq] at hchar
      exact h₁ hchar.symm
    · intro heq
      rw [heq] at hchar
      exact h₂ hchar.symm
  · change scanUnits ('\\' :: 'u' :: _ :: _ :: _ :: _ :: rest) = _
    rw [scanUnits, hex4Value_hex4 h rfl]
    cases scanUnits rest <;> rfl

/-- Escaped units are read up to the quotation mark, by induction on them. -/
theorem scanUnits_escapes {us : List CodePoint} (h : ∀ unit ∈ us, unit.val < 0x10000)
    (rest : List Char) : scanUnits (us.flatMap escape ++ '"' :: rest) = some (us, rest) := by
  induction us with
  | nil => rw [List.flatMap_nil, List.nil_append, scanUnits]
  | cons unit us ih =>
      rw [List.flatMap_cons, List.append_assoc, scanUnits_escape (h unit List.mem_cons_self),
        ih fun u hu => h u (List.mem_cons_of_mem unit hu)]
      rfl

/-- A written string is read again up to its end. -/
theorem scanString_closing (s : Str) (rest : List Char) :
    scanString (closing s ++ rest) = some (rereadStr s, rest) := by
  rw [scanString, closing, List.append_assoc, List.singleton_append,
    scanUnits_escapes fun _ => lt_of_mem_units]
  rfl

/-- What is scanned holds no pair. -/
theorem unpaired_of_scanString {text : List Char} {scanned : Str × List Char}
    (h : scanString text = some scanned) : Unpaired scanned.1 := by
  obtain ⟨us, -, rfl⟩ := Option.map_eq_some_iff.mp h
  exact unpaired_joinPairs us.1

/-! ## Numbers -/

/-- A text that does not go on with a number. -/
def EndsNumber (rest : List Char) : Prop :=
  ∀ c ∈ rest.head?, c.isDigit = false ∧ c ≠ '.' ∧ c ≠ 'e' ∧ c ≠ 'E'

/-- A text that does not go on with digits. -/
def EndsDigits (rest : List Char) : Prop := ∀ c ∈ rest.head?, c.isDigit = false

/-- Digits end before any other character. -/
theorem endsDigits_cons {c : Char} (h : c.isDigit = false) (rest : List Char) :
    EndsDigits (c :: rest) := by
  intro d hd
  rw [List.head?_cons, Option.mem_some_iff] at hd
  exact hd ▸ h

/-- A number ends where its digits end. -/
theorem EndsNumber.endsDigits {rest : List Char} (h : EndsNumber rest) : EndsDigits rest :=
  fun c hc => (h c hc).1

/-- A run of characters is taken as a whole when another one follows. -/
theorem takeWhile_append {p : Char → Bool} {front rest : List Char} (hfront : ∀ c ∈ front, p c = true)
    (hrest : ∀ c ∈ rest.head?, p c = false) :
    (front ++ rest).takeWhile p = front ∧ (front ++ rest).dropWhile p = rest := by
  rw [List.takeWhile_append_of_pos hfront, List.dropWhile_append_of_pos hfront]
  cases rest with
  | nil => exact ⟨List.append_nil _, rfl⟩
  | cons c rest =>
      have hc : ¬ p c = true := by simp [hrest c rfl]
      rw [List.takeWhile_cons_of_neg hc, List.dropWhile_cons_of_neg hc]
      exact ⟨List.append_nil _, rfl⟩

/-- Digits are read again. -/
theorem takeDigits_append (digits : Digits) {rest : List Char} (h : EndsDigits rest) :
    takeDigits (digits.val ++ rest) = some (digits, rest) := by
  obtain ⟨htake, hdrop⟩ := takeWhile_append digits.property.2 h
  have hne : ¬ (digits.val ++ rest).takeWhile Char.isDigit = [] := by
    rw [htake]
    exact digits.property.1
  rw [takeDigits, dif_neg hne]
  simp only [htake, hdrop]

/-- A decimal text has digits. -/
theorem isDigit_of_mem_toDigits {n : ℕ} {c : Char} (h : c ∈ Nat.toDigits 10 n) :
    c.isDigit = true :=
  Nat.isDigit_of_mem_toDigits (by decide) (by decide) h

/-- The decimal text of a number as a run of digits. -/
def Digits.ofNat (n : ℕ) : Digits :=
  ⟨Nat.toDigits 10 n, Nat.toDigits_ne_nil, fun _ => isDigit_of_mem_toDigits⟩

/-- A whole number is read again, without leading zeros. -/
theorem takeWhole_toDigits (n : ℕ) {rest : List Char} (h : EndsDigits rest) :
    takeWhole (Nat.toDigits 10 n ++ rest) = some (n, rest) := by
  by_cases hzero : n = 0
  · rw [hzero, Nat.toDigits_zero]
    rfl
  · have hhead := Net.head?_toDigits (by decide : 1 < 10) (by decide) hzero
    have htaken : takeDigits (Nat.toDigits 10 n ++ rest) = some (Digits.ofNat n, rest) :=
      takeDigits_append (Digits.ofNat n) h
    obtain ⟨c, digits, hdigits⟩ := List.exists_cons_of_ne_nil (Nat.toDigits_ne_nil (n := n) (b := 10))
    have hc : c ≠ '0' := by
      rintro rfl
      rw [hdigits] at hhead
      exact hhead rfl
    rw [takeWhole.eq_def]
    split
    · rename_i heq
      rw [hdigits] at heq
      exact absurd (List.cons.inj heq).1 hc
    · rw [htaken, Option.map_some]
      exact congrArg some (Prod.ext Nat.ofDigitChars_ten_toDigits rfl)

/-- A fraction is read again, or its absence. -/
theorem takeFraction_text (fraction : Option Digits) {rest : List Char} (hdigits : EndsDigits rest)
    (hdot : '.' ∉ rest.head?) :
    takeFraction (fraction.elim [] (fun digits => '.' :: digits.val) ++ rest) = (fraction, rest) := by
  cases fraction with
  | none =>
      rw [Option.elim_none, List.nil_append, takeFraction.eq_def]
      split
      · exact absurd rfl hdot
      · rfl
  | some digits =>
      rw [Option.elim_some, List.cons_append, takeFraction, takeDigits_append digits hdigits]

/-- A sign is read again, or its absence. -/
theorem takeSign_text (sign : Option Bool) (digits : Digits) (rest : List Char) :
    takeSign (sign.elim [] (fun negative => [if negative then '-' else '+']) ++
      (digits.val ++ rest)) = (sign, digits.val ++ rest) := by
  cases sign with
  | none =>
      obtain ⟨chars, hne, hall⟩ := digits
      obtain ⟨c, chars, rfl⟩ := List.exists_cons_of_ne_nil hne
      have hc : c.isDigit = true := hall c List.mem_cons_self
      rw [Option.elim_none, List.nil_append, List.cons_append, takeSign.eq_def]
      split
      · rename_i heq
        rw [(List.cons.inj heq).1] at hc
        exact absurd hc (by decide)
      · rename_i heq
        rw [(List.cons.inj heq).1] at hc
        exact absurd hc (by decide)
      · rfl
  | some negative => cases negative <;> rfl

/-- An exponent is read again, or its absence. -/
theorem takeExponent_text (exponent : Option Exponent) {rest : List Char} (h : EndsNumber rest) :
    takeExponent (exponent.elim [] Exponent.text ++ rest) = (exponent, rest) := by
  cases exponent with
  | none =>
      rw [Option.elim_none, List.nil_append]
      cases rest with
      | nil => rfl
      | cons c rest =>
          obtain ⟨-, -, he, hE⟩ := h c rfl
          rw [takeExponent, if_neg (by simp [he, hE])]
  | some e =>
      obtain ⟨upper, sign, digits⟩ := e
      have hletter : (if upper then 'E' else 'e') = 'e' ∨ (if upper then 'E' else 'e') = 'E' := by
        cases upper
        · exact .inl rfl
        · exact .inr rfl
      rw [Option.elim_some, Exponent.text, List.cons_append, takeExponent, if_pos hletter,
        List.append_assoc, takeSign_text, takeDigits_append digits h.endsDigits]
      cases upper <;> rfl

/-- An exponent is neither a digit nor a point. -/
theorem endsDigits_exponent (exponent : Option Exponent) {rest : List Char} (h : EndsNumber rest) :
    EndsDigits (exponent.elim [] Exponent.text ++ rest) ∧
      '.' ∉ (exponent.elim [] Exponent.text ++ rest).head? := by
  cases exponent with
  | none => exact ⟨h.endsDigits, fun hdot => (h '.' hdot).2.1 rfl⟩
  | some e =>
      obtain ⟨upper, sign, digits⟩ := e
      cases upper
      · refine ⟨endsDigits_cons (c := 'e') (by decide) _, fun hdot => ?_⟩
        have heq : 'e' = '.' := Option.mem_some_iff.mp hdot
        exact absurd heq (by decide)
      · refine ⟨endsDigits_cons (c := 'E') (by decide) _, fun hdot => ?_⟩
        have heq : 'E' = '.' := Option.mem_some_iff.mp hdot
        exact absurd heq (by decide)

/-- A fraction does not begin with a digit. -/
theorem endsDigits_fraction (fraction : Option Digits) {rest : List Char} (h : EndsDigits rest) :
    EndsDigits (fraction.elim [] (fun digits => '.' :: digits.val) ++ rest) := by
  cases fraction with
  | none => exact h
  | some digits => exact endsDigits_cons (by decide) _

/-- A minus is read again, or its absence. -/
theorem takeMinus_text (negative : Bool) (n : ℕ) (rest : List Char) :
    takeMinus ((if negative then ['-'] else []) ++ (Nat.toDigits 10 n ++ rest)) =
      (negative, Nat.toDigits 10 n ++ rest) := by
  cases negative with
  | true => rfl
  | false =>
      obtain ⟨c, digits, hdigits⟩ :=
        List.exists_cons_of_ne_nil (Nat.toDigits_ne_nil (n := n) (b := 10))
      have hc : c.isDigit = true := isDigit_of_mem_toDigits (n := n) (by
        rw [hdigits]
        exact List.mem_cons_self)
      rw [hdigits]
      change takeMinus (c :: (digits ++ rest)) = _
      rw [takeMinus.eq_def]
      split
      · rename_i heq
        rw [(List.cons.inj heq).1] at hc
        exact absurd hc (by decide)
      · rfl

/-- **A number's text is read as that number.** -/
theorem takeNumber_text (n : Number) {rest : List Char} (h : EndsNumber rest) :
    takeNumber (n.text ++ rest) = some (n, rest) := by
  obtain ⟨negative, whole, fraction, exponent⟩ := n
  obtain ⟨hexp, hdot⟩ := endsDigits_exponent exponent h
  rw [takeNumber, Number.text, List.append_assoc, List.append_assoc, List.append_assoc,
    takeMinus_text, takeWhole_toDigits whole (endsDigits_fraction fraction hexp)]
  simp only [Option.bind_eq_bind, Option.bind_some, takeFraction_text fraction hexp hdot,
    takeExponent_text exponent h]
  rfl

end Json
