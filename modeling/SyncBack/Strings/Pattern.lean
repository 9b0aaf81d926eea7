import Mathlib.Data.List.Basic
import Mathlib.Data.List.Forall2
import Mathlib.Data.List.Infix
import Mathlib.Data.Option.Basic

/-!
# Regular expressions with captures

The part of a backtracking matcher that patterns for delimiters need, over any alphabet:

* `Regex.run` — the ways in which an expression takes a prefix of a text, in the order in which a
  backtracking matcher tries them; the first of them is the match;
* `Regex.Accepts` — the same without an order, and `Regex.mem_run_iff`, that the two agree;
* `Regex.sub` — the substitution of every match, left to right, and `Regex.sub_induction`, its
  rule of induction;
* `Regex.findAll` — the matches at all positions of a text, also those that overlap;
* `Regex.finditer` — the matches one after another, each from the end of the one before.

The last three are meant for expressions that take at least one character.
-/

namespace Strings

variable {α : Type}

/-- `many` and `opt` are the greedy `p*` and `r?`, `boundary` is `\b`, and `assert` a test of the
two neighbours of a position. -/
inductive Regex (α : Type)
  | one (p : α → Bool)
  | many (p : α → Bool)
  | boundary
  | assert (test : Option α → Option α → Bool)
  | seq (first second : Regex α)
  | alt (first second : Regex α)
  | opt (body : Regex α)
  | group (index : ℕ) (body : Regex α)

/-- What an expression took of a text, the groups captured on the way (the last one first), and
what it left. -/
@[ext] structure Match (α : Type) where
  text : List α
  groups : List (ℕ × List α)
  rest : List α

/-- The character before the position after `taken`. -/
def lastOr (prev : Option α) (taken : List α) : Option α := taken.getLast?.or prev

/-- Nothing was taken. -/
@[simp] theorem lastOr_nil (prev : Option α) : lastOr prev [] = prev := rfl

/-- The first character taken is the last one before the rest. -/
@[simp] theorem lastOr_cons (prev : Option α) (c : α) (taken : List α) :
    lastOr prev (c :: taken) = lastOr (some c) taken := by
  cases taken <;> simp [lastOr, List.getLast?_cons]

/-- `m'` after `m`. -/
def Match.andThen (m m' : Match α) : Match α := ⟨m.text ++ m'.text, m'.groups ++ m.groups, m'.rest⟩

def Match.captured (m : Match α) (index : ℕ) : Match α :=
  { m with groups := (index, m.text) :: m.groups }

/-- The text of a group, empty when the group took part in no match. -/
def Match.group (m : Match α) (index : ℕ) : List α := (m.groups.lookup index).getD []

namespace Regex

/-- One character after another. -/
def literal : (α → Bool) → List (α → Bool) → Regex α
  | p, [] => one p
  | p, q :: qs => seq (one p) (literal q qs)

/-- The greedy `p{1,n+1}`. -/
def oneUpTo (p : α → Bool) : ℕ → Regex α
  | 0 => one p
  | n + 1 => seq (one p) (opt (oneUpTo p n))

/-- The prefixes of characters of `p`, the longest first. -/
def manyRuns (p : α → Bool) : List α → List (Match α)
  | [] => [⟨[], [], []⟩]
  | c :: rest =>
      (if p c then (manyRuns p rest).map (Match.andThen ⟨[c], [], rest⟩) else []) ++
        [⟨[], [], c :: rest⟩]

/-! ## Matching -/

section matching

variable (isWord : α → Bool)

/-- Whether exactly one of the two neighbours is a word character. -/
def atBoundary (prev next : Option α) : Bool := (prev.any isWord) != (next.any isWord)

/-- All ways to take a prefix of the text, in the order of a backtracking matcher. -/
def run : Regex α → Option α → List α → List (Match α)
  | one p, _, text =>
      match text with
      | [] => []
      | c :: rest => if p c then [⟨[c], [], rest⟩] else []
  | many p, _, text => manyRuns p text
  | boundary, prev, text =>
      if atBoundary isWord prev text.head? then [⟨[], [], text⟩] else []
  | assert test, prev, text => if test prev text.head? then [⟨[], [], text⟩] else []
  | seq first second, prev, text =>
      (first.run prev text).flatMap fun m =>
        (second.run (lastOr prev m.text) m.rest).map m.andThen
  | alt first second, prev, text => first.run prev text ++ second.run prev text
  | opt body, prev, text => body.run prev text ++ [⟨[], [], text⟩]
  | group index body, prev, text => (body.run prev text).map fun m => m.captured index

/-- The match at one position. -/
def matchAt (r : Regex α) (prev : Option α) (text : List α) : Option (Match α) :=
  (r.run isWord prev text).head?

/-- The expression takes `taken`, with `prev` before it and `rest` after it, and captures
`groups`. -/
def Accepts : Regex α → Option α → List α → List α → List (ℕ × List α) → Prop
  | one p, _, taken, _, groups => ∃ c, p c = true ∧ taken = [c] ∧ groups = []
  | many p, _, taken, _, groups => (∀ c ∈ taken, p c = true) ∧ groups = []
  | boundary, prev, taken, rest, groups =>
      atBoundary isWord prev rest.head? = true ∧ taken = [] ∧ groups = []
  | assert test, prev, taken, rest, groups =>
      test prev rest.head? = true ∧ taken = [] ∧ groups = []
  | seq first second, prev, taken, rest, groups =>
      ∃ taken₁ taken₂ groups₁ groups₂,
        first.Accepts prev taken₁ (taken₂ ++ rest) groups₁ ∧
        second.Accepts (lastOr prev taken₁) taken₂ rest groups₂ ∧
        taken = taken₁ ++ taken₂ ∧ groups = groups₂ ++ groups₁
  | alt first second, prev, taken, rest, groups =>
      first.Accepts prev taken rest groups ∨ second.Accepts prev taken rest groups
  | opt body, prev, taken, rest, groups =>
      body.Accepts prev taken rest groups ∨ (taken = [] ∧ groups = [])
  | group index body, prev, taken, rest, groups =>
      ∃ groups', body.Accepts prev taken rest groups' ∧ groups = (index, taken) :: groups'

variable {isWord}

/-- The runs of a class of characters, by induction on the text. -/
theorem mem_manyRuns_iff {p : α → Bool} {m : Match α} :
    ∀ {text : List α}, m ∈ manyRuns p text ↔
      text = m.text ++ m.rest ∧ (∀ c ∈ m.text, p c = true) ∧ m.groups = []
  | [] => by
      obtain ⟨taken, groups, rest⟩ := m
      simp only [manyRuns, List.mem_singleton, Match.mk.injEq, List.nil_eq,
        List.append_eq_nil_iff]
      constructor
      · rintro ⟨rfl, rfl, rfl⟩
        simp
      · rintro ⟨⟨rfl, rfl⟩, -, rfl⟩
        simp
  | c :: text => by
      obtain ⟨taken, groups, rest⟩ := m
      simp only [manyRuns, List.mem_append, List.mem_singleton, Match.mk.injEq]
      constructor
      · rintro (h | ⟨rfl, rfl, rfl⟩)
        · by_cases hp : p c = true
          · rw [if_pos hp, List.mem_map] at h
            obtain ⟨m', hm', heq⟩ := h
            obtain ⟨rfl, hall, hg⟩ := mem_manyRuns_iff.mp hm'
            simp only [Match.andThen, Match.mk.injEq, List.append_nil] at heq
            obtain ⟨rfl, rfl, rfl⟩ := heq
            simpa [hp, hg] using hall
          · rw [if_neg hp] at h
            simp at h
        · simp
      · rintro ⟨heq, hall, rfl⟩
        cases taken with
        | nil => exact .inr ⟨rfl, rfl, heq.symm⟩
        | cons d taken =>
            rw [List.cons_append, List.cons.injEq] at heq
            obtain ⟨rfl, rfl⟩ := heq
            rw [if_pos (hall c List.mem_cons_self), List.mem_map]
            exact .inl ⟨⟨taken, [], rest⟩,
              mem_manyRuns_iff.mpr ⟨rfl, fun d hd => hall d (List.mem_cons_of_mem _ hd), rfl⟩,
              by simp [Match.andThen]⟩

/-- A test of the next character takes no text. -/
theorem mem_test_iff (test : Option α → Bool) {text : List α} {m : Match α} :
    (m ∈ if test text.head? = true then [⟨[], [], text⟩] else []) ↔
      text = m.text ++ m.rest ∧ test m.rest.head? = true ∧ m.text = [] ∧ m.groups = [] := by
  obtain ⟨taken, groups, rest⟩ := m
  constructor
  · intro h
    by_cases hb : test text.head? = true
    · simp only [hb, if_true, List.mem_singleton, Match.mk.injEq] at h
      obtain ⟨rfl, rfl, rfl⟩ := h
      exact ⟨rfl, hb, rfl, rfl⟩
    · simp [hb] at h
  · rintro ⟨rfl, hb, rfl, rfl⟩
    simpa using hb

/-- A backtracking matcher finds what the expression accepts, and nothing else. -/
theorem mem_run_iff {r : Regex α} {prev : Option α} {text : List α} {m : Match α} :
    m ∈ r.run isWord prev text ↔
      text = m.text ++ m.rest ∧ r.Accepts isWord prev m.text m.rest m.groups := by
  induction r generalizing prev text m with
  | one p =>
      obtain ⟨taken, groups, rest⟩ := m
      simp only [run, Accepts]
      constructor
      · intro h
        cases text with
        | nil => simp at h
        | cons c text =>
            by_cases hp : p c = true
            · simp only [hp, if_true, List.mem_singleton, Match.mk.injEq] at h
              obtain ⟨rfl, rfl, rfl⟩ := h
              exact ⟨rfl, c, hp, rfl, rfl⟩
            · simp [hp] at h
      · rintro ⟨rfl, c, hp, rfl, rfl⟩
        simp [hp]
  | many p => exact mem_manyRuns_iff
  | boundary => exact mem_test_iff (atBoundary isWord prev)
  | assert test => exact mem_test_iff (test prev)
  | seq first second ih₁ ih₂ =>
      simp only [run, Accepts, List.mem_flatMap, List.mem_map]
      constructor
      · rintro ⟨m₁, h₁, m₂, h₂, rfl⟩
        obtain ⟨rfl, ha₁⟩ := ih₁.mp h₁
        obtain ⟨hrest, ha₂⟩ := ih₂.mp h₂
        rw [hrest] at ha₁ ⊢
        exact ⟨by simp [Match.andThen], _, _, _, _, ha₁, ha₂, rfl, rfl⟩
      · rintro ⟨rfl, taken₁, taken₂, groups₁, groups₂, ha₁, ha₂, htext, hgroups⟩
        refine ⟨⟨taken₁, groups₁, taken₂ ++ m.rest⟩, ih₁.mpr ⟨?_, ha₁⟩,
          ⟨taken₂, groups₂, m.rest⟩, ih₂.mpr ⟨rfl, ha₂⟩, ?_⟩
        · rw [htext, List.append_assoc]
        · exact Match.ext htext.symm hgroups.symm rfl
  | alt first second ih₁ ih₂ =>
      rw [run, List.mem_append, ih₁, ih₂, ← and_or_left]
      rfl
  | opt body ih =>
      obtain ⟨taken, groups, rest⟩ := m
      simp only [run, Accepts, List.mem_append, ih, List.mem_singleton, Match.mk.injEq]
      constructor
      · rintro (⟨h, ha⟩ | ⟨rfl, rfl, rfl⟩)
        · exact ⟨h, .inl ha⟩
        · exact ⟨rfl, .inr ⟨rfl, rfl⟩⟩
      · rintro ⟨h, ha | ⟨rfl, rfl⟩⟩
        · exact .inl ⟨h, ha⟩
        · exact .inr ⟨rfl, rfl, h.symm⟩
  | group index body ih =>
      simp only [run, Accepts, List.mem_map, ih]
      constructor
      · rintro ⟨m', ⟨rfl, ha⟩, rfl⟩
        exact ⟨rfl, m'.groups, ha, rfl⟩
      · rintro ⟨rfl, groups', ha, hgroups⟩
        exact ⟨⟨m.text, groups', m.rest⟩, ⟨rfl, ha⟩, Match.ext rfl hgroups.symm rfl⟩

section

variable {prev : Option α} {taken rest : List α} {groups : List (ℕ × List α)}

/-- One character, then the rest of the pattern. -/
theorem accepts_one_seq_iff {p : α → Bool} {r : Regex α} :
    (seq (one p) r).Accepts isWord prev taken rest groups ↔
      ∃ c taken', p c = true ∧ r.Accepts isWord (some c) taken' rest groups ∧
        taken = c :: taken' := by
  constructor
  · rintro ⟨_, taken', _, _, ⟨c, hp, rfl, rfl⟩, h, rfl, rfl⟩
    exact ⟨c, taken', hp, by simpa using h, rfl⟩
  · rintro ⟨c, taken', hp, h, rfl⟩
    exact ⟨[c], taken', [], groups, ⟨c, hp, rfl, rfl⟩, h, rfl, by simp⟩

/-- A run of characters, then the rest. -/
theorem accepts_many_seq_iff {p : α → Bool} {r : Regex α} :
    (seq (many p) r).Accepts isWord prev taken rest groups ↔
      ∃ run taken', (∀ c ∈ run, p c = true) ∧
        r.Accepts isWord (lastOr prev run) taken' rest groups ∧ taken = run ++ taken' := by
  constructor
  · rintro ⟨run, taken', _, _, ⟨hrun, rfl⟩, h, rfl, rfl⟩
    exact ⟨run, taken', hrun, by simpa using h, rfl⟩
  · rintro ⟨run, taken', hrun, h, rfl⟩
    exact ⟨run, taken', [], groups, ⟨hrun, rfl⟩, h, rfl, by simp⟩

/-- A group, then the rest; what it took is recorded. -/
theorem accepts_group_seq_iff {index : ℕ} {body r : Regex α} :
    (seq (group index body) r).Accepts isWord prev taken rest groups ↔
      ∃ captured taken' groups₁ groups₂,
        body.Accepts isWord prev captured (taken' ++ rest) groups₁ ∧
        r.Accepts isWord (lastOr prev captured) taken' rest groups₂ ∧
        taken = captured ++ taken' ∧ groups = groups₂ ++ (index, captured) :: groups₁ := by
  constructor
  · rintro ⟨captured, taken', _, groups₂, ⟨groups₁, hbody, rfl⟩, h, rfl, rfl⟩
    exact ⟨captured, taken', groups₁, groups₂, hbody, h, rfl, rfl⟩
  · rintro ⟨captured, taken', groups₁, groups₂, hbody, h, rfl, rfl⟩
    exact ⟨captured, taken', _, groups₂, ⟨groups₁, hbody, rfl⟩, h, rfl, rfl⟩

/-- A test between two characters, then the rest. -/
theorem accepts_assert_seq_iff {test : Option α → Option α → Bool} {r : Regex α} :
    (seq (assert test) r).Accepts isWord prev taken rest groups ↔
      test prev (taken ++ rest).head? = true ∧ r.Accepts isWord prev taken rest groups := by
  constructor
  · rintro ⟨_, taken', _, _, ⟨htest, rfl, rfl⟩, h, rfl, rfl⟩
    exact ⟨htest, by simpa using h⟩
  · rintro ⟨htest, h⟩
    exact ⟨[], taken, [], groups, ⟨htest, rfl, rfl⟩, h, rfl, by simp⟩

/-- Between one and `n + 1` characters of a class. -/
theorem accepts_oneUpTo_iff {p : α → Bool} (n : ℕ) :
    ∀ {prev : Option α} {taken : List α} {groups : List (ℕ × List α)},
      (oneUpTo p n).Accepts isWord prev taken rest groups ↔
        (∀ c ∈ taken, p c = true) ∧ 1 ≤ taken.length ∧ taken.length ≤ n + 1 ∧ groups = [] := by
  induction n with
  | zero =>
      intro prev taken groups
      constructor
      · rintro ⟨c, hp, rfl, rfl⟩
        simpa using hp
      · rintro ⟨hp, h₁, h₂, rfl⟩
        obtain ⟨c, rfl⟩ := List.length_eq_one_iff.mp (Nat.le_antisymm h₂ h₁)
        exact ⟨c, hp c List.mem_cons_self, rfl, rfl⟩
  | succ n ih =>
      intro prev taken groups
      rw [oneUpTo, accepts_one_seq_iff]
      constructor
      · rintro ⟨c, taken, hp, h | ⟨rfl, rfl⟩, rfl⟩
        · obtain ⟨hall, h₁, h₂, rfl⟩ := ih.mp h
          exact ⟨List.forall_mem_cons.mpr ⟨hp, hall⟩, by simp, by simpa using h₂, rfl⟩
        · simpa using hp
      · rintro ⟨hall, h₁, h₂, rfl⟩
        obtain ⟨c, taken, rfl⟩ := List.exists_cons_of_length_pos h₁
        refine ⟨c, taken, hall c List.mem_cons_self, ?_, rfl⟩
        rcases taken with _ | ⟨d, taken⟩
        · exact .inr ⟨rfl, rfl⟩
        · exact .inl (ih.mpr ⟨fun e he => hall e (List.mem_cons_of_mem _ he), by simp,
            by simpa using h₂, rfl⟩)

/-- One character of a class or nothing. -/
theorem accepts_opt_one_iff {p : α → Bool} :
    (opt (one p)).Accepts isWord prev taken rest groups ↔
      ((∃ c, p c = true ∧ taken = [c]) ∨ taken = []) ∧ groups = [] := by
  rw [Accepts, Accepts, or_and_right]
  simp only [exists_and_right, ← and_assoc]

end

/-- A literal, character by character. -/
theorem accepts_literal_iff {prev : Option α} {rest : List α} {groups : List (ℕ × List α)} :
    ∀ {p : α → Bool} {ps : List (α → Bool)} {taken : List α},
      (literal p ps).Accepts isWord prev taken rest groups ↔
        List.Forall₂ (fun q c => q c = true) (p :: ps) taken ∧ groups = []
  | p, [], taken => by
      rw [literal, Accepts]
      constructor
      · rintro ⟨c, hp, rfl, rfl⟩
        exact ⟨.cons hp .nil, rfl⟩
      · rintro ⟨_ | ⟨hp, _ | _⟩, rfl⟩
        exact ⟨_, hp, rfl, rfl⟩
  | p, q :: qs, taken => by
      rw [literal, Accepts]
      constructor
      · rintro ⟨_, taken, _, _, ⟨c, hp, rfl, rfl⟩, h, rfl, rfl⟩
        obtain ⟨hrest, rfl⟩ := accepts_literal_iff.mp h
        exact ⟨.cons hp hrest, rfl⟩
      · rintro ⟨_ | ⟨hp, h⟩, rfl⟩
        exact ⟨_, _, [], [], ⟨_, hp, rfl, rfl⟩, accepts_literal_iff.mpr ⟨h, rfl⟩, rfl, rfl⟩

/-- No match is found exactly where the pattern accepts nothing. -/
theorem matchAt_eq_none_iff {r : Regex α} {prev : Option α} {text : List α} :
    r.matchAt isWord prev text = none ↔
      ∀ taken rest groups, text = taken ++ rest → ¬ r.Accepts isWord prev taken rest groups := by
  rw [matchAt, List.head?_eq_none_iff, List.eq_nil_iff_forall_not_mem]
  constructor
  · intro h taken rest groups htext ha
    exact h ⟨taken, groups, rest⟩ (mem_run_iff.mpr ⟨htext, ha⟩)
  · intro h m hm
    obtain ⟨htext, ha⟩ := mem_run_iff.mp hm
    exact h _ _ _ htext ha

/-- A match that is found is accepted. -/
theorem accepts_of_matchAt {r : Regex α} {prev : Option α} {text : List α} {m : Match α}
    (h : r.matchAt isWord prev text = some m) :
    text = m.text ++ m.rest ∧ r.Accepts isWord prev m.text m.rest m.groups :=
  mem_run_iff.mp (List.mem_of_head? h)

end matching

/-! ## Substitution -/

section sub

variable (isWord : α → Bool)

/-- `skip` characters still belong to the last match. -/
def subFrom (r : Regex α) (replacement : Match α → List α) :
    Option α → ℕ → List α → List α
  | _, _, [] => []
  | _, skip + 1, c :: rest => subFrom r replacement (some c) skip rest
  | prev, 0, c :: rest =>
      match r.matchAt isWord prev (c :: rest) with
      | some m => replacement m ++ subFrom r replacement (some c) (m.text.length - 1) rest
      | none => c :: subFrom r replacement (some c) 0 rest

/-- `re.sub`: the text with each match replaced. -/
def sub (r : Regex α) (replacement : Match α → List α) (text : List α) : List α :=
  subFrom isWord r replacement none 0 text

variable {isWord}

/-- Substitution passes what a match has taken. -/
theorem subFrom_skip {r : Regex α} {replacement : Match α → List α} (taken rest : List α) :
    ∀ prev, subFrom isWord r replacement prev taken.length (taken ++ rest) =
      subFrom isWord r replacement (lastOr prev taken) 0 rest := by
  induction taken with
  | nil => exact fun _ => rfl
  | cons c taken ih =>
      intro prev
      rw [List.length_cons, List.cons_append, subFrom, ih, lastOr_cons]

/-- A substitution copies the characters at which no match begins and replaces the matches. -/
theorem sub_induction {r : Regex α} {replacement : Match α → List α}
    (hne : ∀ prev taken rest groups, r.Accepts isWord prev taken rest groups → taken ≠ [])
    {P : List α → List α → Prop} (nil : P [] [])
    (copy : ∀ prev c rest out, r.matchAt isWord prev (c :: rest) = none → P rest out →
      P (c :: rest) (c :: out))
    (replace : ∀ prev text m out, r.matchAt isWord prev text = some m → P m.rest out →
      P text (replacement m ++ out))
    (text : List α) : P text (sub isWord r replacement text) := by
  suffices h : ∀ n text, text.length ≤ n → ∀ prev,
      P text (subFrom isWord r replacement prev 0 text) from h _ text le_rfl none
  intro n
  induction n with
  | zero =>
      intro text hlen prev
      rw [List.length_eq_zero_iff.mp (Nat.le_zero.mp hlen)]
      exact nil
  | succ n ih =>
      intro text hlen prev
      cases text with
      | nil => exact nil
      | cons c rest =>
          rw [subFrom]
          cases hm : r.matchAt isWord prev (c :: rest) with
          | none => exact copy prev c rest _ hm (ih rest (by simpa using hlen) _)
          | some m =>
              obtain ⟨htext, ha⟩ := accepts_of_matchAt hm
              obtain ⟨d, taken, htaken⟩ := List.exists_cons_of_ne_nil (hne _ _ _ _ ha)
              rw [htaken, List.cons_append, List.cons.injEq] at htext
              obtain ⟨rfl, rfl⟩ := htext
              dsimp only
              rw [htaken, List.length_cons, Nat.add_sub_cancel, subFrom_skip]
              refine replace prev _ m _ hm (ih m.rest ?_ _)
              simp only [List.length_cons, List.length_append] at hlen
              omega

end sub

/-! ## All matches -/

section findAll

variable (isWord : α → Bool)

/-- The matches of a text whose first character has the position `i`. -/
def findAll (r : Regex α) : ℕ → Option α → List α → List (ℕ × List α)
  | _, _, [] => []
  | i, prev, c :: rest =>
      ((r.matchAt isWord prev (c :: rest)).map fun m => (i, m.text)).toList ++
        findAll r (i + 1) (some c) rest

variable {isWord}

/-- Where nothing matches, the search goes on. -/
theorem findAll_cons_of_none {r : Regex α} {i : ℕ} {prev : Option α} {c : α} {rest : List α}
    (h : r.matchAt isWord prev (c :: rest) = none) :
    r.findAll isWord i prev (c :: rest) = r.findAll isWord (i + 1) (some c) rest := by
  simp [findAll, h]

/-- Where something matches, it is found. -/
theorem findAll_cons_of_some {r : Regex α} {i : ℕ} {prev : Option α} {c : α} {rest : List α}
    {m : Match α} (h : r.matchAt isWord prev (c :: rest) = some m) :
    r.findAll isWord i prev (c :: rest) =
      (i, m.text) :: r.findAll isWord (i + 1) (some c) rest := by
  simp [findAll, h]

/-- A text without a match has none at its first character and none after it. -/
theorem findAll_cons_eq_nil_iff {r : Regex α} {i : ℕ} {prev : Option α} {c : α}
    {rest : List α} :
    r.findAll isWord i prev (c :: rest) = [] ↔
      r.matchAt isWord prev (c :: rest) = none ∧ r.findAll isWord (i + 1) (some c) rest = [] := by
  simp [findAll]

/-- A text without a match is left as it is. -/
theorem subFrom_eq_self {r : Regex α} {replacement : Match α → List α} :
    ∀ {i : ℕ} {prev : Option α} {text : List α}, r.findAll isWord i prev text = [] →
      subFrom isWord r replacement prev 0 text = text
  | _, _, [], _ => rfl
  | i, prev, c :: rest, h => by
      obtain ⟨hc, hrest⟩ := findAll_cons_eq_nil_iff.mp h
      rw [subFrom, hc, subFrom_eq_self hrest]

/-- Where no match begins in the first part, the matches are those of the second. -/
theorem findAll_append {r : Regex α} (front back : List α) :
    ∀ {i : ℕ} {prev : Option α},
      (∀ before c after, front = before ++ c :: after →
        r.matchAt isWord (lastOr prev before) (c :: after ++ back) = none) →
      r.findAll isWord i prev (front ++ back) =
        r.findAll isWord (i + front.length) (lastOr prev front) back := by
  induction front with
  | nil => exact fun _ => rfl
  | cons c front ih =>
      intro i prev h
      have hc : r.matchAt isWord prev (c :: (front ++ back)) = none := h [] c front rfl
      rw [List.cons_append, findAll_cons_of_none hc, ih, List.length_cons, lastOr_cons]
      · congr 1
        omega
      · rintro before d after rfl
        simpa using h (c :: before) d after rfl

end findAll

/-! ## Matches one after another -/

section finditer

variable (isWord : α → Bool)

/-- `skip` characters still belong to the last match; the first character has the position `i`. -/
def finditerFrom (r : Regex α) : ℕ → Option α → ℕ → List α → List (ℕ × Match α)
  | _, _, _, [] => []
  | i, _, skip + 1, c :: rest => finditerFrom r (i + 1) (some c) skip rest
  | i, prev, 0, c :: rest =>
      match r.matchAt isWord prev (c :: rest) with
      | some m => (i, m) :: finditerFrom r (i + 1) (some c) (m.text.length - 1) rest
      | none => finditerFrom r (i + 1) (some c) 0 rest

/-- `re.finditer`: the matches with their positions. -/
def finditer (r : Regex α) (text : List α) : List (ℕ × Match α) :=
  finditerFrom isWord r 0 none 0 text

variable {isWord}

/-- The search passes what a match has taken. -/
theorem finditerFrom_skip {r : Regex α} (taken rest : List α) :
    ∀ i prev, finditerFrom isWord r i prev taken.length (taken ++ rest) =
      finditerFrom isWord r (i + taken.length) (lastOr prev taken) 0 rest := by
  induction taken with
  | nil => exact fun _ _ => rfl
  | cons c taken ih =>
      intro i prev
      rw [List.length_cons, List.cons_append, finditerFrom, ih, lastOr_cons, Nat.add_right_comm,
        Nat.add_assoc]

/-- After a match the search goes on from its end. -/
theorem finditerFrom_of_match {r : Regex α} {i : ℕ} {prev : Option α} {text : List α} {m : Match α}
    (h : r.matchAt isWord prev text = some m) (hne : m.text ≠ []) :
    finditerFrom isWord r i prev 0 text =
      (i, m) :: finditerFrom isWord r (i + m.text.length) (lastOr prev m.text) 0 m.rest := by
  obtain ⟨htext, -⟩ := accepts_of_matchAt h
  obtain ⟨c, taken, htaken⟩ := List.exists_cons_of_ne_nil hne
  rw [htaken, List.cons_append] at htext
  rw [htext, finditerFrom, ← htext, h]
  simp only [htaken, List.length_cons, Nat.add_sub_cancel, lastOr_cons]
  rw [finditerFrom_skip, Nat.add_right_comm, Nat.add_assoc]

/-- Where no match begins in a first part, the search goes on after it. -/
theorem finditerFrom_append {r : Regex α} (front back : List α) :
    ∀ {i : ℕ} {prev : Option α},
      (∀ before c after, front = before ++ c :: after →
        r.matchAt isWord (lastOr prev before) (c :: after ++ back) = none) →
      finditerFrom isWord r i prev 0 (front ++ back) =
        finditerFrom isWord r (i + front.length) (lastOr prev front) 0 back := by
  induction front with
  | nil => exact fun _ => rfl
  | cons c front ih =>
      intro i prev h
      have hc : r.matchAt isWord prev (c :: (front ++ back)) = none := h [] c front rfl
      rw [List.cons_append, finditerFrom, hc, ih, List.length_cons, lastOr_cons,
        Nat.add_right_comm, Nat.add_assoc]
      rintro before d after rfl
      simpa using h (c :: before) d after rfl

end finditer

end Regex

end Strings
