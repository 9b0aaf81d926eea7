import Mathlib.Data.List.Basic
import Mathlib.Data.List.TakeWhile
import Mathlib.Tactic.Ring

/-!
# Internet addresses as texts

The addresses of both versions, how they are written and how they are read. A version 4 address is
written as four decimal octets; a version 6 address as eight hexadecimal groups, where the longest run
of zero groups, if there is one of two groups or more, is left out, and a scope after a percent sign.

* `ipAddress_toText` — what is written reads back as the address, `IpAddress.WellFormed` given: only
  a scope can be such that it does not.
-/

namespace Net

/-! ## Numerals -/

/-- The value of a digit, of either case. -/
def digitValue (c : Char) : ℕ :=
  if c.toNat ≤ '9'.toNat then c.toNat - '0'.toNat
  else if c.toNat ≤ 'F'.toNat then c.toNat - 'A'.toNat + 10
  else c.toNat - 'a'.toNat + 10

/-- The number that digits denote. -/
def ofDigits (base : ℕ) (digits : List Char) : ℕ :=
  digits.foldl (fun n c => base * n + digitValue c) 0

/-- A hexadecimal digit. -/
def isHexDigit (c : Char) : Bool :=
  c.isDigit || ('a' ≤ c && c ≤ 'f') || ('A' ≤ c && c ≤ 'F')

/-- A digit of either case has its value and is ASCII. -/
theorem digitChar_spec {n : ℕ} (h : n < 16) :
    digitValue n.digitChar = n ∧ isHexDigit n.digitChar = true ∧ n.digitChar.toNat < 128 := by
  have hall : ∀ n < 16, digitValue (Nat.digitChar n) = n ∧ isHexDigit (Nat.digitChar n) = true ∧
      (Nat.digitChar n).toNat < 128 := by decide
  exact hall n h

/-- The digits of a number denote it. -/
theorem ofDigits_toDigits {base : ℕ} (hbase : 1 < base) (hle : base ≤ 16) (n : ℕ) :
    ofDigits base (Nat.toDigits base n) = n := by
  induction n using Nat.strongRecOn with
  | ind n ih =>
      by_cases hn : n < base
      · rw [Nat.toDigits_of_lt_base hn, ofDigits, List.foldl_cons, List.foldl_nil, Nat.mul_zero,
          Nat.zero_add, (digitChar_spec (by omega)).1]
      · have hdiv : n / base < n := Nat.div_lt_self (by omega) hbase
        have hmod : n % base < base := Nat.mod_lt n (by omega)
        rw [Nat.toDigits_of_base_le hbase (by omega), ofDigits, List.foldl_append, ← ofDigits,
          ih _ hdiv, List.foldl_cons, List.foldl_nil, (digitChar_spec (by omega)).1]
        exact Nat.div_add_mod n base

/-- The digits of a number are hexadecimal. -/
theorem isHexDigit_of_mem_toDigits {base n : ℕ} {c : Char} (hbase : 1 < base) (hle : base ≤ 16)
    (h : c ∈ Nat.toDigits base n) : isHexDigit c = true := by
  induction n using Nat.strongRecOn with
  | ind n ih =>
      by_cases hn : n < base
      · rw [Nat.toDigits_of_lt_base hn, List.mem_singleton] at h
        exact h ▸ (digitChar_spec (by omega)).2.1
      · have hmod : n % base < base := Nat.mod_lt n (by omega)
        rw [Nat.toDigits_of_base_le hbase (by omega), List.mem_append, List.mem_singleton] at h
        rcases h with h | h
        · exact ih _ (Nat.div_lt_self (by omega) hbase) h
        · exact h ▸ (digitChar_spec (by omega)).2.1

/-- A numeral starts with a zero only where it is the numeral of zero. -/
theorem head?_toDigits {base n : ℕ} (hbase : 1 < base) (hle : base ≤ 16) (hn : n ≠ 0) :
    (Nat.toDigits base n).head? ≠ some '0' := by
  induction n using Nat.strongRecOn with
  | ind n ih =>
      by_cases hlt : n < base
      · rw [Nat.toDigits_of_lt_base hlt]
        simpa using hn
      · have hpos : 0 < n / base := Nat.div_pos (by omega) (by omega)
        rw [Nat.toDigits_of_base_le hbase (by omega),
          List.head?_append_of_ne_nil _ Nat.toDigits_ne_nil]
        exact ih _ (Nat.div_lt_self (by omega) hbase) (by omega)

/-- A character of joined pieces is one of a piece or of the separator. -/
theorem mem_intercalate {α : Type} {sep : List α} {c : α} :
    ∀ {pieces : List (List α)}, c ∈ sep.intercalate pieces →
      c ∈ sep ∨ ∃ piece ∈ pieces, c ∈ piece
  | [], h => by simp at h
  | [piece], h => .inr ⟨piece, List.mem_singleton_self _, by simpa using h⟩
  | piece :: next :: rest, h => by
      rw [List.intercalate_cons_cons, List.mem_append, List.mem_append] at h
      rcases h with (h | h) | h
      · exact .inr ⟨piece, List.mem_cons_self, h⟩
      · exact .inl h
      · rcases mem_intercalate h with h | ⟨piece', hpiece, h⟩
        · exact .inl h
        · exact .inr ⟨piece', List.mem_cons_of_mem _ hpiece, h⟩

/-! ## Version 4 -/

/-- `_parse_octet`. -/
def parseOctet (octet : List Char) : Option ℕ :=
  if octet = [] then none
  else if !octet.all Char.isDigit then none
  else if 3 < octet.length then none
  else if octet ≠ ['0'] ∧ octet.head? = some '0' then none
  else if 255 < ofDigits 10 octet then none
  else some (ofDigits 10 octet)

/-- A decimal octet is read again. -/
theorem parseOctet_toDigits {n : ℕ} (h : n < 256) : parseOctet (Nat.toDigits 10 n) = some n := by
  have hdigits : (Nat.toDigits 10 n).all Char.isDigit = true := by
    rw [List.all_eq_true]
    exact fun c hc => Nat.isDigit_of_mem_toDigits (by decide) (by decide) hc
  have hlength : (Nat.toDigits 10 n).length ≤ 3 :=
    (Nat.length_toDigits_le_iff (by decide) (by decide)).mpr (by omega)
  have hzero : ¬ (Nat.toDigits 10 n ≠ ['0'] ∧ (Nat.toDigits 10 n).head? = some '0') := by
    rintro ⟨hne, hhead⟩
    by_cases hn : n = 0
    · exact hne (by rw [hn, Nat.toDigits_zero])
    · exact head?_toDigits (by decide) (by decide) hn hhead
  have hvalue : ofDigits 10 (Nat.toDigits 10 n) = n := ofDigits_toDigits (by decide) (by decide) n
  rw [parseOctet, if_neg Nat.toDigits_ne_nil, if_neg (by simp [hdigits]), if_neg (by omega),
    if_neg hzero, hvalue, if_neg (by omega)]

/-- An address of version 4. -/
structure IPv4Address where
  ip : BitVec 32
  deriving DecidableEq

namespace IPv4Address

/-- The four octets, the most significant first. -/
def octets (a : IPv4Address) : List ℕ :=
  [a.ip.toNat / 2 ^ 24, a.ip.toNat / 2 ^ 16 % 256, a.ip.toNat / 2 ^ 8 % 256, a.ip.toNat % 256]

/-- `str(address)`. -/
def toText (a : IPv4Address) : List Char :=
  ['.'].intercalate (a.octets.map (Nat.toDigits 10))

/-- `IPv4Address(text)`; `none` for an `AddressValueError`. -/
def ofText (text : List Char) : Option IPv4Address :=
  if '/' ∈ text then none
  else
    match (text.splitOn '.').map parseOctet with
    | [some a, some b, some c, some d] =>
        some ⟨BitVec.ofNat 32 (((a * 256 + b) * 256 + c) * 256 + d)⟩
    | _ => none

/-- The text of an address has digits and points alone. -/
theorem not_mem_toText {a : IPv4Address} {c : Char} (hc : isHexDigit c = false) (hdot : c ≠ '.') :
    c ∉ a.toText := by
  intro h
  rcases mem_intercalate h with h | ⟨octet, hoctet, h⟩
  · exact hdot (List.mem_singleton.mp h)
  · obtain ⟨n, -, rfl⟩ := List.mem_map.mp hoctet
    rw [isHexDigit_of_mem_toDigits (by decide) (by decide) h] at hc
    cases hc

/-- The octets are the digits of a number. -/
theorem octets_value (n : ℕ) :
    ((n / 2 ^ 24 * 256 + n / 2 ^ 16 % 256) * 256 + n / 2 ^ 8 % 256) * 256 + n % 256 = n := by
  have hdigit : ∀ m, m / 256 * 256 + m % 256 = m := fun m => Nat.div_add_mod' m 256
  have hsecond : n / 2 ^ 16 = n / 2 ^ 8 / 256 := by omega
  have hfirst : n / 2 ^ 24 = n / 2 ^ 16 / 256 := by omega
  rw [hfirst, hdigit, hsecond, hdigit]
  exact hdigit n

/-- An address of version 4 is read again. -/
theorem ofText_toText (a : IPv4Address) : ofText a.toText = some a := by
  have hlt : a.ip.toNat < 2 ^ 32 := a.ip.isLt
  have hdots : ∀ octet ∈ a.octets.map (Nat.toDigits 10), '.' ∉ octet := by
    intro octet hoctet hdot
    obtain ⟨n, -, rfl⟩ := List.mem_map.mp hoctet
    have := isHexDigit_of_mem_toDigits (by decide) (by decide) hdot
    revert this
    decide
  have hsplit : a.toText.splitOn '.' = a.octets.map (Nat.toDigits 10) :=
    List.splitOn_intercalate '.' hdots (by simp [octets])
  have hparts : (a.toText.splitOn '.').map parseOctet = a.octets.map some := by
    rw [hsplit, List.map_map]
    refine List.map_congr_left fun n hn => parseOctet_toDigits ?_
    simp only [octets, List.mem_cons, List.not_mem_nil, or_false] at hn
    rcases hn with rfl | rfl | rfl | rfl
    · exact Nat.div_lt_of_lt_mul hlt
    · exact Nat.mod_lt _ (by decide)
    · exact Nat.mod_lt _ (by decide)
    · exact Nat.mod_lt _ (by decide)
  rw [ofText, if_neg (not_mem_toText (by decide) (by decide)), hparts]
  simp only [octets, List.map_cons, List.map_nil]
  congr 2
  apply BitVec.eq_of_toNat_eq
  rw [BitVec.toNat_ofNat, octets_value, Nat.mod_eq_of_lt hlt]

end IPv4Address

/-! ## The groups of version 6 -/

/-- `_parse_hextet`. -/
def parseHextet (hextet : List Char) : Option ℕ :=
  if !hextet.all isHexDigit then none
  else if 4 < hextet.length then none
  else if hextet = [] then none
  else some (ofDigits 16 hextet)

/-- Groups, read one after another behind the number so far. -/
def readHextets (ip : ℕ) (parts : List (List Char)) : Option ℕ :=
  parts.foldlM (fun ip part => (parseHextet part).map (ip * 65536 + ·)) ip

/-- A group of hexadecimal digits is read again. -/
theorem parseHextet_toDigits {n : ℕ} (h : n < 65536) :
    parseHextet (Nat.toDigits 16 n) = some n := by
  have hdigits : (Nat.toDigits 16 n).all isHexDigit = true := by
    rw [List.all_eq_true]
    exact fun c hc => isHexDigit_of_mem_toDigits (by decide) (by decide) hc
  have hlength : (Nat.toDigits 16 n).length ≤ 4 :=
    (Nat.length_toDigits_le_iff (by decide) (by decide)).mpr (by omega)
  rw [parseHextet, if_neg (by simp [hdigits]), if_neg (by omega), if_neg Nat.toDigits_ne_nil,
    ofDigits_toDigits (by decide) (by decide)]

/-- Groups are read one after another, by induction on them. -/
theorem readHextets_toDigits :
    ∀ {hextets : List ℕ} (ip : ℕ), (∀ n ∈ hextets, n < 65536) →
      readHextets ip (hextets.map (Nat.toDigits 16)) =
        some (hextets.foldl (fun ip n => ip * 65536 + n) ip)
  | [], _, _ => rfl
  | n :: rest, ip, h => by
      have hn : n < 65536 := h n List.mem_cons_self
      have ih := readHextets_toDigits (ip * 65536 + n) fun m hm => h m (List.mem_cons_of_mem _ hm)
      rw [readHextets] at ih ⊢
      rw [List.map_cons, List.foldlM_cons, parseHextet_toDigits hn, List.foldl_cons]
      exact ih

/-! ### The longest run of zero groups -/

/-- The longest run of zero groups so far and the run that is going on, each with its start and its
length. -/
structure Runs where
  bestStart : ℕ := 0
  bestLen : ℕ := 0
  start : Option ℕ := none
  len : ℕ := 0

/-- One round of the loop of `_compress_hextets`. -/
def Runs.next (s : Runs) (index : ℕ) (hextet : List Char) : Runs :=
  if hextet = ['0'] then
    let start := s.start.getD index
    if s.bestLen < s.len + 1 then ⟨start, s.len + 1, some start, s.len + 1⟩
    else ⟨s.bestStart, s.bestLen, some start, s.len + 1⟩
  else { s with start := none, len := 0 }

/-- The loop of `_compress_hextets`, from the group with the given index on. -/
def Runs.scan : Runs → ℕ → List (List Char) → Runs
  | s, _, [] => s
  | s, index, hextet :: rest => (s.next index hextet).scan (index + 1) rest

/-- The runs are runs of the groups that are done. -/
structure Runs.Of (s : Runs) (done : List (List Char)) : Prop where
  best : ∃ pre post, done = pre ++ List.replicate s.bestLen ['0'] ++ post ∧
    (s.bestLen ≠ 0 → pre.length = s.bestStart)
  current : ∃ pre, done = pre ++ List.replicate s.len ['0'] ∧
    s.start = if s.len = 0 then none else some pre.length

/-- A round of the loop keeps the runs true to the groups. -/
theorem Runs.Of.next {s : Runs} {done : List (List Char)} (h : s.Of done) (hextet : List Char) :
    (s.next done.length hextet).Of (done ++ [hextet]) := by
  obtain ⟨pre, post, hbest, hstart⟩ := h.best
  obtain ⟨pre', hcurrent, hcurrent'⟩ := h.current
  have hkept : ∃ pre post', done ++ [hextet] = pre ++ List.replicate s.bestLen ['0'] ++ post' ∧
      (s.bestLen ≠ 0 → pre.length = s.bestStart) :=
    ⟨pre, post ++ [hextet], by rw [← List.append_assoc, ← hbest], hstart⟩
  by_cases hzero : hextet = ['0']
  · have hgrown : done ++ [hextet] = pre' ++ List.replicate (s.len + 1) ['0'] := by
      rw [hzero, List.replicate_succ', ← List.append_assoc, ← hcurrent]
    have hfirst : s.start.getD done.length = pre'.length := by
      rw [hcurrent']
      split_ifs with hlen
      · rw [Option.getD_none, hcurrent, hlen, List.replicate_zero, List.append_nil]
      · rfl
    simp only [Runs.next, if_pos hzero, hfirst]
    split_ifs
    · exact ⟨⟨pre', [], by rw [hgrown, List.append_nil], fun _ => rfl⟩, ⟨pre', hgrown, rfl⟩⟩
    · exact ⟨hkept, ⟨pre', hgrown, rfl⟩⟩
  · rw [Runs.next, if_neg hzero]
    exact ⟨hkept, ⟨done ++ [hextet], by simp, rfl⟩⟩

/-- The loop keeps them true, by induction on the groups that are left. -/
theorem Runs.Of.scan :
    ∀ {hextets done : List (List Char)} {s : Runs}, s.Of done →
      (s.scan done.length hextets).Of (done ++ hextets)
  | [], done, s, h => by rwa [List.append_nil]
  | hextet :: rest, done, s, h => by
      have hnext : ((s.next done.length hextet).scan (done ++ [hextet]).length rest).Of
          (done ++ [hextet] ++ rest) := (h.next hextet).scan
      rwa [List.length_append, List.length_singleton, List.append_assoc] at hnext

/-- `_compress_hextets`. -/
def compressHextets (hextets : List (List Char)) : List (List Char) :=
  let best := Runs.scan {} 0 hextets
  if 1 < best.bestLen then
    let stop := best.bestStart + best.bestLen
    let padded := if stop = hextets.length then hextets ++ [[]] else hextets
    let shortened := padded.take best.bestStart ++ [] :: padded.drop stop
    if best.bestStart = 0 then [] :: shortened else shortened
  else hextets

/-- The groups on one side of a run; an empty side is written as an empty group. -/
def side (hextets : List (List Char)) : List (List Char) :=
  if hextets = [] then [[]] else hextets

/-- A side with groups is written as it is. -/
theorem side_of_ne_nil {hextets : List (List Char)} (h : hextets ≠ []) : side hextets = hextets :=
  if_neg h

/-- A side is never without a group. -/
theorem side_ne_nil (hextets : List (List Char)) : side hextets ≠ [] := by
  rw [side]
  split_ifs with h
  · exact List.cons_ne_nil _ _
  · exact h

/-- **What compression does**: nothing, or one run of zero groups is left out. -/
theorem compressHextets_eq (hextets : List (List Char)) :
    compressHextets hextets = hextets ∨
      ∃ pre n post, 1 < n ∧ hextets = pre ++ List.replicate n ['0'] ++ post ∧
        compressHextets hextets = side pre ++ [] :: side post := by
  have hnone : Runs.Of {} [] := ⟨⟨[], [], rfl, fun _ => rfl⟩, ⟨[], rfl, rfl⟩⟩
  have hof : (Runs.scan {} 0 hextets).Of hextets :=
    (hnone.scan : (Runs.scan {} ([] : List (List Char)).length hextets).Of ([] ++ hextets))
  rw [compressHextets]
  generalize Runs.scan {} 0 hextets = best at hof ⊢
  by_cases hlen : 1 < best.bestLen
  · obtain ⟨pre, post, heq, hstart⟩ := hof.best
    have hpre : best.bestStart = pre.length := (hstart (by omega)).symm
    refine .inr ⟨pre, best.bestLen, post, hlen, heq, ?_⟩
    have hlength : hextets.length = pre.length + best.bestLen + post.length := by
      rw [heq, List.length_append, List.length_append, List.length_replicate]
    simp only [if_pos hlen, hpre]
    have hpadded : (if pre.length + best.bestLen = hextets.length then hextets ++ [[]]
        else hextets) = pre ++ List.replicate best.bestLen ['0'] ++ side post := by
      by_cases hpost : post = []
      · rw [if_pos (by simp [hlength, hpost]), heq, hpost, List.append_nil]
        rfl
      · have : post.length ≠ 0 := fun h => hpost (List.length_eq_zero_iff.mp h)
        rw [if_neg (by omega), side_of_ne_nil hpost, heq]
    have htake : (pre ++ List.replicate best.bestLen ['0'] ++ side post).take pre.length = pre := by
      rw [List.append_assoc, List.take_left]
    have hdrop : (pre ++ List.replicate best.bestLen ['0'] ++ side post).drop
        (pre.length + best.bestLen) = side post := by
      rw [List.drop_left' (by rw [List.length_append, List.length_replicate])]
    rw [hpadded, htake, hdrop]
    by_cases hnil : pre = []
    · rw [if_pos (by rw [hnil]; rfl), hnil]
      rfl
    · rw [if_neg (fun h => hnil (List.length_eq_zero_iff.mp h)), side_of_ne_nil hnil]
  · exact .inl (if_neg hlen)

/-- What is left of the groups was there before. -/
theorem mem_of_mem_compressHextets {hextets : List (List Char)} {part : List Char}
    (h : part ∈ compressHextets hextets) (hne : part ≠ []) : part ∈ hextets := by
  have hside : ∀ {parts : List (List Char)}, part ∈ side parts → part ∈ parts := by
    intro parts hmem
    rw [side] at hmem
    split_ifs at hmem
    · exact absurd (List.mem_singleton.mp hmem) hne
    · exact hmem
  rcases compressHextets_eq hextets with heq | ⟨pre, n, post, -, hsplit, heq⟩
  · rwa [heq] at h
  · rw [heq, List.mem_append, List.mem_cons] at h
    rw [hsplit, List.mem_append, List.mem_append]
    rcases h with h | h | h
    · exact .inl (.inl (hside h))
    · exact absurd h hne
    · exact .inr (hside h)

/-- Three groups at least are left. -/
theorem length_compressHextets {hextets : List (List Char)} (h : 3 ≤ hextets.length) :
    3 ≤ (compressHextets hextets).length := by
  rcases compressHextets_eq hextets with heq | ⟨pre, n, post, -, -, heq⟩
  · rwa [heq]
  · have hpre := List.length_pos_iff.mpr (side_ne_nil pre)
    have hpost := List.length_pos_iff.mpr (side_ne_nil post)
    rw [heq, List.length_append, List.length_cons]
    omega

/-! ### Reading the groups -/

/-- `_ip_int_from_string` behind the suffix: the number that the parts between the colons denote. -/
def readParts (parts : List (List Char)) : Option ℕ :=
  let inner := parts.tail.dropLast
  if 9 < parts.length then none
  else if 1 < inner.count [] then none
  else if [] ∈ inner then
    let skip := inner.idxOf [] + 1
    let front := parts.take skip
    let back := parts.drop (skip + 1)
    -- an empty first or last part belongs to a `::` at that end
    if front.head? = some [] ∧ front ≠ [[]] then none
    else if back.getLast? = some [] ∧ back ≠ [[]] then none
    else
      let high := if front = [[]] then [] else front
      let low := if back = [[]] then [] else back
      if 8 ≤ high.length + low.length then none
      else
        (readHextets 0 high).bind fun ip =>
          readHextets (ip * 65536 ^ (8 - (high.length + low.length))) low
  else if parts.length ≠ 8 then none
  else if parts.head? = some [] then none
  else if parts.getLast? = some [] then none
  else readHextets 0 parts

/-- `_ip_int_from_string` of version 6. -/
def ipIntFromString (text : List Char) : Option ℕ :=
  let parts := text.splitOn ':'
  let last := parts.getLast?.getD []
  if parts.length < 3 then none
  else if '.' ∈ last then
    (IPv4Address.ofText last).bind fun a =>
      readParts (parts.dropLast ++
        [Nat.toDigits 16 (a.ip.toNat / 65536), Nat.toDigits 16 (a.ip.toNat % 65536)])
  else readParts parts

/-- No group of digits is empty. -/
theorem nil_not_mem_map_toDigits (hextets : List ℕ) : [] ∉ hextets.map (Nat.toDigits 16) := by
  intro h
  obtain ⟨n, -, hn⟩ := List.mem_map.mp h
  exact Nat.toDigits_ne_nil hn

/-- No group is left out. -/
theorem readParts_of_full {hextets : List ℕ} (hlength : hextets.length = 8)
    (hlt : ∀ n ∈ hextets, n < 65536) :
    readParts (hextets.map (Nat.toDigits 16)) =
      some (hextets.foldl (fun ip n => ip * 65536 + n) 0) := by
  have hne : [] ∉ hextets.map (Nat.toDigits 16) := nil_not_mem_map_toDigits hextets
  have hinner : [] ∉ (hextets.map (Nat.toDigits 16)).tail.dropLast := fun h =>
    hne (List.mem_of_mem_tail ((List.dropLast_sublist _).subset h))
  have hhead : (hextets.map (Nat.toDigits 16)).head? ≠ some [] := fun h =>
    hne (List.mem_of_mem_head? h)
  have hlast : (hextets.map (Nat.toDigits 16)).getLast? ≠ some [] := fun h =>
    hne (List.mem_of_getLast? h)
  rw [readParts, if_neg (by rw [List.length_map]; omega),
    if_neg (by rw [List.count_eq_zero.mpr hinner]; omega), if_neg hinner,
    if_neg (by rw [List.length_map]; omega), if_neg hhead, if_neg hlast,
    readHextets_toDigits 0 hlt]

section side

variable {parts : List (List Char)} (h : [] ∉ parts)
include h

/-- Behind the first group no side is empty. -/
theorem nil_not_mem_tail_side : [] ∉ (side parts).tail := by
  rw [side]
  split_ifs
  · exact List.not_mem_nil
  · exact fun hmem => h (List.mem_of_mem_tail hmem)

/-- Before the last group no side is empty. -/
theorem nil_not_mem_dropLast_side : [] ∉ (side parts).dropLast := by
  rw [side]
  split_ifs
  · exact List.not_mem_nil
  · exact fun hmem => h ((List.dropLast_sublist _).subset hmem)

/-- An empty part at an end of a side is the whole side. -/
theorem side_eq_of_nil_mem (hmem : [] ∈ side parts) : side parts = [[]] := by
  rw [side] at hmem ⊢
  split_ifs at hmem ⊢
  · rfl
  · exact absurd hmem h

/-- A side is read as the groups that it was written for. -/
theorem collapse_side : (if side parts = [[]] then [] else side parts) = parts := by
  by_cases hnil : parts = []
  · rw [hnil]
    rfl
  · rw [side_of_ne_nil hnil, if_neg]
    exact fun heq => h (heq ▸ List.mem_singleton_self _)

end side

/-- Groups are left out between the two sides. -/
theorem readParts_side {high low : List (List Char)} (hhigh : [] ∉ high) (hlow : [] ∉ low)
    (hlength : high.length + low.length < 7) :
    readParts (side high ++ [] :: side low) =
      (readHextets 0 high).bind fun ip =>
        readHextets (ip * 65536 ^ (8 - (high.length + low.length))) low := by
  have hside : ∀ parts : List (List Char), (side parts).length ≤ parts.length + 1 := by
    intro parts
    rw [side]
    split_ifs with hnil
    · simp [hnil]
    · omega
  have hinner : (side high ++ [] :: side low).tail.dropLast =
      (side high).tail ++ [] :: (side low).dropLast := by
    rw [List.tail_append_of_ne_nil (side_ne_nil high), List.dropLast_append_cons,
      List.dropLast_cons_of_ne_nil (side_ne_nil low)]
  have hcount : ((side high).tail ++ [] :: (side low).dropLast).count [] = 1 := by
    rw [List.count_append, List.count_cons_self, List.count_eq_zero.mpr (nil_not_mem_tail_side hhigh),
      List.count_eq_zero.mpr (nil_not_mem_dropLast_side hlow)]
  have hskip : ((side high).tail ++ [] :: (side low).dropLast).idxOf [] + 1 =
      (side high).length := by
    have hpos := List.length_pos_iff.mpr (side_ne_nil high)
    rw [List.idxOf_append_of_notMem (nil_not_mem_tail_side hhigh), List.idxOf_cons_self,
      List.length_tail]
    omega
  have hfront : (side high ++ [] :: side low).take (side high).length = side high := List.take_left
  have hback : (side high ++ [] :: side low).drop ((side high).length + 1) = side low := by
    rw [← List.drop_drop, List.drop_left, List.drop_succ_cons, List.drop_zero]
  have hhead : ¬ ((side high).head? = some [] ∧ side high ≠ [[]]) := fun hc =>
    hc.2 (side_eq_of_nil_mem hhigh (List.mem_of_mem_head? hc.1))
  have hlast : ¬ ((side low).getLast? = some [] ∧ side low ≠ [[]]) := fun hc =>
    hc.2 (side_eq_of_nil_mem hlow (List.mem_of_getLast? hc.1))
  have hlong : ¬ 9 < (side high ++ [] :: side low).length := by
    have h₁ := hside high
    have h₂ := hside low
    rw [List.length_append, List.length_cons]
    omega
  rw [readParts]
  simp only [if_neg hlong, hinner, hcount, hskip, hfront, hback, if_neg hhead, if_neg hlast,
    collapse_side hhigh, collapse_side hlow]
  rw [if_neg (by omega), if_pos (by simp), if_neg (by omega)]

/-! ## Version 6 -/

/-- An address of version 6, with the zone in which it is meant. -/
structure IPv6Address where
  ip : BitVec 128
  scopeId : Option (List Char) := none
  deriving DecidableEq

namespace IPv6Address

/-- The eight groups, the most significant first. -/
def hextets (a : IPv6Address) : List ℕ :=
  [7, 6, 5, 4, 3, 2, 1, 0].map fun i => a.ip.toNat / 65536 ^ i % 65536

/-- `_string_from_ip_int`. -/
def groupsText (a : IPv6Address) : List Char :=
  [':'].intercalate (compressHextets (a.hextets.map (Nat.toDigits 16)))

/-- `str(address)`. -/
def toText (a : IPv6Address) : List Char :=
  match a.scopeId with
  | some scope => if scope = [] then a.groupsText else a.groupsText ++ '%' :: scope
  | none => a.groupsText

/-- `_split_scope_id`; `none` for an `AddressValueError`. -/
def splitScopeId (text : List Char) : Option (List Char × Option (List Char)) :=
  match text.dropWhile (· ≠ '%') with
  | [] => some (text, none)
  | _ :: scope =>
      if scope = [] ∨ '%' ∈ scope then none else some (text.takeWhile (· ≠ '%'), some scope)

/-- `IPv6Address(text)`; `none` for an `AddressValueError`. -/
def ofText (text : List Char) : Option IPv6Address :=
  if '/' ∈ text then none
  else do
    let (groups, scopeId) ← splitScopeId text
    let ip ← ipIntFromString groups
    pure ⟨BitVec.ofNat 128 ip, scopeId⟩

/-- A scope that the constructor accepts. -/
def WellFormed (a : IPv6Address) : Prop :=
  ∀ scope, a.scopeId = some scope → scope ≠ [] ∧ '%' ∉ scope ∧ '/' ∉ scope

/-- A group is a number of 16 bits. -/
theorem lt_of_mem_hextets {a : IPv6Address} {n : ℕ} (h : n ∈ a.hextets) : n < 65536 := by
  obtain ⟨i, -, rfl⟩ := List.mem_map.mp h
  exact Nat.mod_lt _ (by decide)

/-- The last `k` digits of a number, read from the left. -/
theorem foldl_digits (base n : ℕ) : ∀ k value : ℕ,
    ((List.range k).reverse.map fun i => n / base ^ i % base).foldl
      (fun value digit => value * base + digit) value = value * base ^ k + n % base ^ k
  | 0, value => by simp [Nat.mod_one]
  | k + 1, value => by
      rw [List.range_succ, List.reverse_append, List.reverse_singleton, List.singleton_append,
        List.map_cons, List.foldl_cons, foldl_digits base n k, Nat.mod_pow_succ, pow_succ, add_mul,
        mul_assoc, mul_comm base (base ^ k), mul_comm (n / base ^ k % base), add_assoc,
        add_comm (n % base ^ k)]

/-- The groups denote the address. -/
theorem foldl_hextets (a : IPv6Address) :
    a.hextets.foldl (fun ip n => ip * 65536 + n) 0 = a.ip.toNat := by
  have hlt : a.ip.toNat < 65536 ^ 8 := a.ip.isLt
  have hdigits := foldl_digits 65536 a.ip.toNat 8 0
  rw [Nat.zero_mul, Nat.zero_add, Nat.mod_eq_of_lt hlt] at hdigits
  exact hdigits

/-- **Compressed groups are read as the address.** -/
theorem readParts_compressHextets (a : IPv6Address) :
    readParts (compressHextets (a.hextets.map (Nat.toDigits 16))) = some a.ip.toNat := by
  rcases compressHextets_eq (a.hextets.map (Nat.toDigits 16)) with h | ⟨pre, n, post, hn, heq, h⟩
  · rw [h, readParts_of_full rfl fun _ => lt_of_mem_hextets, foldl_hextets]
  · obtain ⟨front, low, hsplit, hfront, rfl⟩ := List.map_eq_append_iff.mp heq
    obtain ⟨high, zeros, rfl, rfl, hzeros⟩ := List.map_eq_append_iff.mp hfront
    have hzero : zeros = List.replicate n 0 := by
      refine List.eq_replicate_iff.mpr ⟨?_, fun m hm => ?_⟩
      · rw [← List.length_map (Nat.toDigits 16), hzeros, List.length_replicate]
      · have hmem : Nat.toDigits 16 m ∈ List.replicate n ['0'] := hzeros ▸ List.mem_map_of_mem hm
        have hread : ofDigits 16 (Nat.toDigits 16 m) = m := ofDigits_toDigits (by decide) (by decide) m
        rw [← hread, List.eq_of_mem_replicate hmem]
        rfl
    have hlength : high.length + n + low.length = 8 := by
      have := congrArg List.length hsplit
      rw [hzero, List.length_append, List.length_append, List.length_replicate] at this
      exact this.symm
    have hlt : ∀ m ∈ high ++ zeros ++ low, m < 65536 := fun m hm =>
      lt_of_mem_hextets (hsplit ▸ hm)
    have hskipped : 8 - (high.length + low.length) = n := by omega
    have hshift : ∀ ip : ℕ, (List.replicate n 0).foldl (fun ip n => ip * 65536 + n) ip =
        ip * 65536 ^ n := by
      intro ip
      clear * -
      induction n generalizing ip with
      | zero => simp
      | succ n ih => rw [List.replicate_succ, List.foldl_cons, ih, Nat.pow_succ]; ring
    rw [h, readParts_side (nil_not_mem_map_toDigits high) (nil_not_mem_map_toDigits low)
        (by rw [List.length_map, List.length_map]; omega),
      readHextets_toDigits 0 fun m hm => hlt m (by simp [hm]), Option.bind_some,
      List.length_map, List.length_map, hskipped,
      readHextets_toDigits _ fun m hm => hlt m (by simp [hm]), ← hshift, ← hzero,
      ← List.foldl_append, ← List.foldl_append, ← List.append_assoc, ← hsplit, foldl_hextets]

/-- The text of the groups has two colons at least. -/
theorem length_groups (a : IPv6Address) :
    3 ≤ (compressHextets (a.hextets.map (Nat.toDigits 16))).length := by
  apply length_compressHextets
  rw [List.length_map]
  show 3 ≤ 8
  decide

/-- A character of the written groups. -/
theorem mem_groupsText {a : IPv6Address} {c : Char} (h : c ∈ a.groupsText) :
    c = ':' ∨ isHexDigit c = true := by
  rcases mem_intercalate h with h | ⟨part, hpart, h⟩
  · exact .inl (List.mem_singleton.mp h)
  · obtain ⟨n, -, rfl⟩ := List.mem_map.mp (mem_of_mem_compressHextets hpart (List.ne_nil_of_mem h))
    exact .inr (isHexDigit_of_mem_toDigits (by decide) (by decide) h)

/-- The text of the groups is read as the address. -/
theorem ipIntFromString_groupsText (a : IPv6Address) :
    ipIntFromString a.groupsText = some a.ip.toNat := by
  have hdigits : ∀ part ∈ compressHextets (a.hextets.map (Nat.toDigits 16)), ∀ c ∈ part,
      isHexDigit c = true := by
    intro part hpart c hc
    obtain ⟨n, -, rfl⟩ :=
      List.mem_map.mp (mem_of_mem_compressHextets hpart (List.ne_nil_of_mem hc))
    exact isHexDigit_of_mem_toDigits (by decide) (by decide) hc
  have hlength := a.length_groups
  have hsplit : a.groupsText.splitOn ':' = compressHextets (a.hextets.map (Nat.toDigits 16)) := by
    refine List.splitOn_intercalate ':' (fun part hpart hc => ?_) fun hnil => ?_
    · exact absurd (hdigits part hpart _ hc) (by decide)
    · rw [hnil] at hlength
      exact absurd hlength (by decide)
  have hlast : '.' ∉ ((a.groupsText.splitOn ':').getLast?).getD [] := by
    rw [hsplit]
    intro hc
    cases hget : (compressHextets (a.hextets.map (Nat.toDigits 16))).getLast? with
    | none =>
        rw [hget] at hc
        exact List.not_mem_nil hc
    | some part =>
        rw [hget] at hc
        exact absurd (hdigits part (List.mem_of_getLast? hget) _ hc) (by decide)
  rw [ipIntFromString]
  simp only [if_neg hlast]
  rw [hsplit, if_neg (by omega), readParts_compressHextets]

/-- It has digits and colons alone. -/
theorem not_mem_groupsText {a : IPv6Address} {c : Char} (hcolon : c ≠ ':')
    (hhex : isHexDigit c = false) : c ∉ a.groupsText := by
  intro h
  rcases mem_groupsText h with h | h
  · exact hcolon h
  · rw [h] at hhex
    cases hhex

/-- The scope is split off where it was put on. -/
theorem splitScopeId_toText {a : IPv6Address} (h : a.WellFormed) :
    splitScopeId a.toText = some (a.groupsText, a.scopeId) := by
  have hnone : ∀ c ∈ a.groupsText, decide (c ≠ '%') = true := fun c hc => by
    rw [decide_eq_true_eq]
    rintro rfl
    exact not_mem_groupsText (by decide) (by decide) hc
  rw [toText]
  cases hscope : a.scopeId with
  | none =>
      dsimp only
      rw [splitScopeId, List.dropWhile_eq_nil_iff.mpr hnone]
  | some scope =>
      obtain ⟨hne, hpercent, -⟩ := h scope hscope
      dsimp only
      rw [if_neg hne, splitScopeId, List.dropWhile_append_of_pos hnone,
        List.dropWhile_cons_of_neg (by simp), List.takeWhile_append_of_pos hnone,
        List.takeWhile_cons_of_neg (by simp), List.append_nil]
      exact if_neg (by simp [hne, hpercent])

/-- An address of version 6 is read again. -/
theorem ofText_toText {a : IPv6Address} (h : a.WellFormed) : ofText a.toText = some a := by
  have hslash : '/' ∉ a.toText := by
    have hgroups : '/' ∉ a.groupsText := not_mem_groupsText (by decide) (by decide)
    rw [toText]
    cases hscope : a.scopeId with
    | none => exact hgroups
    | some scope =>
        obtain ⟨hne, -, hscopeSlash⟩ := h scope hscope
        dsimp only
        rw [if_neg hne, List.mem_append, List.mem_cons, not_or, not_or]
        exact ⟨hgroups, by decide, hscopeSlash⟩
  rw [ofText, if_neg hslash, splitScopeId_toText h]
  rw [Option.bind_eq_bind, Option.bind_some]
  dsimp only
  rw [ipIntFromString_groupsText, Option.bind_eq_bind, Option.bind_some, BitVec.ofNat_toNat, BitVec.setWidth_eq]
  rfl

end IPv6Address

/-! ## Both versions -/

/-- `IPv4Address | IPv6Address`. -/
inductive IpAddress where
  | v4 (a : IPv4Address)
  | v6 (a : IPv6Address)
  deriving DecidableEq

namespace IpAddress

/-- `str(address)`. -/
def toText : IpAddress → List Char
  | .v4 a => a.toText
  | .v6 a => a.toText

/-- The zone, for an address of version 6 that has one. -/
def scopeId : IpAddress → Option (List Char)
  | .v4 _ => none
  | .v6 a => a.scopeId

end IpAddress

/-- `ip_address(text)`; `none` for a `ValueError`. -/
def ipAddress (text : List Char) : Option IpAddress :=
  match IPv4Address.ofText text with
  | some a => some (.v4 a)
  | none => (IPv6Address.ofText text).map .v6

/-- A text with a colon is not read as an address of version 4. -/
theorem IPv4Address.ofText_eq_none {text : List Char} (h : ':' ∈ text) : ofText text = none := by
  have hpiece : ∃ piece ∈ text.splitOn '.', ':' ∈ piece := by
    have hjoin : ['.'].intercalate (text.splitOn '.') = text := List.intercalate_splitOn '.'
    rw [← hjoin] at h
    rcases mem_intercalate h with h | h
    · exact absurd h (by decide)
    · exact h
  obtain ⟨piece, hmem, hcolon⟩ := hpiece
  have hnone : parseOctet piece = none := by
    have hdigits : piece.all Char.isDigit = false := by
      rw [List.all_eq_false]
      exact ⟨':', hcolon, by decide⟩
    rw [parseOctet, if_neg (List.ne_nil_of_mem hcolon), if_pos (by rw [hdigits]; rfl)]
  have hparts : none ∈ (text.splitOn '.').map parseOctet := List.mem_map.mpr ⟨piece, hmem, hnone⟩
  rw [ofText]
  split_ifs
  · rfl
  · split
    · rename_i heq
      rw [heq] at hparts
      simp at hparts
    · rfl

/-- The zone of an address comes from its text. -/
theorem IPv6Address.scopeId_of_ofText {text scope : List Char} {a : IPv6Address}
    (h : ofText text = some a) (hscope : a.scopeId = some scope) :
    scope ≠ [] ∧ '%' ∉ scope ∧ ∀ c ∈ scope, c ∈ text := by
  rw [ofText] at h
  split_ifs at h
  obtain ⟨⟨groups, scopeId⟩, hsplit, h⟩ := Option.bind_eq_some_iff.mp h
  obtain ⟨ip, -, h⟩ := Option.bind_eq_some_iff.mp h
  obtain rfl := Option.some.inj h
  obtain rfl : scopeId = some scope := hscope
  rw [splitScopeId] at hsplit
  split at hsplit
  · cases hsplit
  · rename_i first rest hrest
    split_ifs at hsplit with hbad
    cases hsplit
    rw [not_or] at hbad
    refine ⟨hbad.1, hbad.2, fun c hc => ?_⟩
    exact (List.dropWhile_sublist _).subset (hrest ▸ List.mem_cons_of_mem _ hc)

namespace IpAddress

/-- An address that the constructors make. -/
def WellFormed (a : IpAddress) : Prop :=
  ∀ scope, a.scopeId = some scope → scope ≠ [] ∧ '%' ∉ scope ∧ '/' ∉ scope

/-- Its text has a colon. -/
theorem colon_mem_toText (a : IPv6Address) : ':' ∈ a.toText := by
  have hlength := a.length_groups
  have hgroups : ':' ∈ a.groupsText := by
    rw [IPv6Address.groupsText]
    generalize compressHextets (a.hextets.map (Nat.toDigits 16)) = groups at hlength ⊢
    rcases groups with _ | ⟨first, _ | ⟨second, rest⟩⟩
    · exact absurd hlength (by decide)
    · exact absurd hlength (by simp)
    · rw [List.intercalate_cons_cons]
      simp
  rw [IPv6Address.toText]
  cases a.scopeId with
  | none => exact hgroups
  | some scope =>
      dsimp only
      split_ifs
      · exact hgroups
      · exact List.mem_append_left _ hgroups

/-- **What is written reads back.** -/
theorem ipAddress_toText {a : IpAddress} (h : a.WellFormed) : ipAddress a.toText = some a := by
  cases a with
  | v4 a => rw [toText, ipAddress, IPv4Address.ofText_toText]
  | v6 a =>
      rw [toText, ipAddress, IPv4Address.ofText_eq_none (colon_mem_toText a)]
      show (IPv6Address.ofText a.toText).map IpAddress.v6 = _
      rw [IPv6Address.ofText_toText h, Option.map_some]

end IpAddress

end Net
