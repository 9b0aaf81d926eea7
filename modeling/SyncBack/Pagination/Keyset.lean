import Mathlib.Data.List.Sort
import Mathlib.Order.Basic

/-!
# Keyset pagination

Rows have a `key`, which a cursor compares, and a `rank`, by which a query sorts in descending
order; rows of one rank come in any order that the database likes. A client asks for one page after
another, each time with the key of the last row of the page before as its cursor, until a page is
not full.

* `IsPage` — what may come back of a query;
* `enumerate` — all pages;
* `enumerate_perm_iff` — **every row comes exactly once, whatever the database chooses, if and only
  if no page can end inside a group of rows of one rank**;
* `enumerate_perm` — when the rank decides the order there are no such groups.

A page that ends inside a group is a fault at its very end too: the cursor cuts the group by key,
and the last row of the page need not be the one with the least key.
-/

set_option linter.unusedSectionVars false

namespace Keyset

variable {ρ κ γ : Type} [LinearOrder κ] [LinearOrder γ]

section definitions

variable (key : ρ → κ) (rank : ρ → γ)

/-- The rows after a cursor; without a cursor, all. -/
def matching (rows : List ρ) (cursor : Option κ) : List ρ :=
  rows.filter fun r => cursor.all fun c => key r < c

/-- A page of these rows, in one of the orders that the database may choose. -/
def IsPage (limit : ℕ) (rows page : List ρ) : Prop :=
  ∃ l : List ρ, l.Perm rows ∧ l.Pairwise (fun a b => rank b ≤ rank a) ∧ page = l.take limit

/-- All pages one after another, from a cursor on; `none` when the fuel does not suffice. -/
def enumerate (page : Option κ → List ρ) (limit : ℕ) : ℕ → Option κ → Option (List ρ)
  | 0, _ => none
  | fuel + 1, cursor =>
      if (page cursor).length < limit then some (page cursor)
      else
        match (page cursor).getLast? with
        | none => none
        | some last => (enumerate page limit fuel (some (key last))).map (page cursor ++ ·)

/-- How many rows have a higher rank. -/
def newer (rows : List ρ) (c : γ) : ℕ := rows.countP fun r => c < rank r

/-- How many rows have this rank. -/
def size (rows : List ρ) (c : γ) : ℕ := rows.countP fun r => rank r = c

/-- No page of `limit` rows ends inside, or at the end of, a group of two or more rows of one
rank. -/
def Clean (limit : ℕ) (rows : List ρ) : Prop :=
  ∀ c, 2 ≤ size rank rows c →
    ∀ k, ¬ (newer rank rows c < k * limit ∧ k * limit ≤ newer rank rows c + size rank rows c)

end definitions

/-! ## Counting ranks -/

section counting

variable {rank : ρ → γ} {limit : ℕ} {l front rest rows : List ρ} {last : ρ}

/-- The rows of a higher rank in two lists. -/
theorem newer_append (front rest : List ρ) (c : γ) :
    newer rank (front ++ rest) c = newer rank front c + newer rank rest c := List.countP_append

/-- The rows of one rank in two lists. -/
theorem size_append (front rest : List ρ) (c : γ) :
    size rank (front ++ rest) c = size rank front c + size rank rest c := List.countP_append

/-- One row more, of a higher rank or not. -/
theorem newer_cons (r : ρ) (rows : List ρ) (c : γ) :
    newer rank (r :: rows) c = newer rank rows c + if c < rank r then 1 else 0 := by
  simp [newer, List.countP_cons]

/-- One row more, of the rank or not. -/
theorem size_cons (r : ρ) (rows : List ρ) (c : γ) :
    size rank (r :: rows) c = size rank rows c + if rank r = c then 1 else 0 := by
  simp [size, List.countP_cons]

/-- Each row is newer, of this rank, or older. -/
theorem newer_add_size_le (rows : List ρ) (c : γ) :
    newer rank rows c + size rank rows c ≤ rows.length := by
  induction rows with
  | nil => simp [newer, size]
  | cons r rows ih =>
      rw [newer_cons, size_cons, List.length_cons]
      by_cases hlt : c < rank r
      · rw [if_pos hlt, if_neg hlt.ne']
        omega
      · rw [if_neg hlt]
        split <;> omega

/-- Every row has the rank or a higher one. -/
theorem newer_add_size_eq {c : γ} (h : ∀ r ∈ rows, c ≤ rank r) :
    newer rank rows c + size rank rows c = rows.length := by
  induction rows with
  | nil => simp [newer, size]
  | cons r rows ih =>
      have ih := ih fun x hx => h x (List.mem_cons_of_mem r hx)
      rw [newer_cons, size_cons, List.length_cons]
      rcases (h r List.mem_cons_self).lt_or_eq with hlt | heq
      · rw [if_pos hlt, if_neg hlt.ne']
        omega
      · rw [if_neg heq.not_lt, if_pos heq.symm]
        omega

/-- Where no row has the rank, none is counted. -/
theorem size_eq_zero {c : γ} (h : ∀ r ∈ rows, rank r ≠ c) : size rank rows c = 0 := by
  rw [size, List.countP_eq_zero]
  intro r hr
  simpa using h r hr

/-- Where no row has a higher rank, none is counted. -/
theorem newer_eq_zero {c : γ} (h : ∀ r ∈ rows, rank r ≤ c) : newer rank rows c = 0 := by
  rw [newer, List.countP_eq_zero]
  intro r hr
  simpa using h r hr

/-- A row of the rank is counted. -/
theorem size_pos {c : γ} {r : ρ} (hr : r ∈ rows) (h : rank r = c) : 0 < size rank rows c :=
  List.countP_pos_iff.mpr ⟨r, hr, by simpa using h⟩

/-- The order of the rows does not matter for clean pages. -/
theorem Clean.of_perm (hperm : l.Perm rows) (h : Clean rank limit l) : Clean rank limit rows := by
  intro c hc k
  have hnewer : newer rank l c = newer rank rows c := hperm.countP_eq _
  have hsize : size rank l c = size rank rows c := hperm.countP_eq _
  rw [← hsize] at hc ⊢
  rw [← hnewer]
  exact h c hc k

/-- It does not, in either direction. -/
theorem Clean.perm_iff (hperm : l.Perm rows) : Clean rank limit l ↔ Clean rank limit rows :=
  ⟨Clean.of_perm hperm, Clean.of_perm hperm.symm⟩

/-- Fewer rows than a page has. -/
theorem clean_of_short (h : rows.length < limit) : Clean rank limit rows := by
  rintro c - k ⟨hlt, hle⟩
  have hlen : newer rank rows c + size rank rows c ≤ rows.length := newer_add_size_le rows c
  have hk : k ≠ 0 := by
    rintro rfl
    omega
  have hpage : limit ≤ k * limit := Nat.le_mul_of_pos_left limit (Nat.pos_of_ne_zero hk)
  omega

/-- The two parts of a sorted list around one row. -/
theorem rank_around (h : (front ++ last :: rest).Pairwise fun a b => rank b ≤ rank a) :
    (∀ r ∈ front, rank last ≤ rank r) ∧ ∀ r ∈ rest, rank r ≤ rank last := by
  obtain ⟨-, htail, hacross⟩ := List.pairwise_append.mp h
  exact ⟨fun r hr => hacross r hr last List.mem_cons_self, (List.pairwise_cons.mp htail).1⟩

/-- **No other row has the rank of the last row of a page**, when no page ends inside a group. -/
theorem Clean.alone (h : Clean rank limit (front ++ last :: rest))
    (hsorted : (front ++ last :: rest).Pairwise fun a b => rank b ≤ rank a)
    (hlen : front.length + 1 = limit) : ∀ r ∈ front ++ rest, rank r ≠ rank last := by
  intro r hr heq
  obtain ⟨hfront, hrest⟩ := rank_around hsorted
  have hcount := newer_add_size_eq hfront
  have hnewer := newer_eq_zero hrest
  have hnewers : newer rank (front ++ last :: rest) (rank last) = newer rank front (rank last) := by
    rw [newer_append, newer_cons, hnewer, if_neg (lt_irrefl _), Nat.add_zero]
  have hsizes : size rank (front ++ last :: rest) (rank last) =
      size rank front (rank last) + size rank rest (rank last) + 1 := by
    rw [size_append, size_cons, if_pos rfl, Nat.add_assoc]
  have hpos : 0 < size rank front (rank last) + size rank rest (rank last) := by
    rw [← size_append]
    exact size_pos hr heq
  refine h (rank last) (by omega) 1 ⟨?_, ?_⟩
  · omega
  · omega

/-- **The pages after the first one.** -/
theorem clean_rest_iff (hsorted : (front ++ last :: rest).Pairwise fun a b => rank b ≤ rank a)
    (hlen : front.length + 1 = limit) (halone : ∀ r ∈ front ++ rest, rank r ≠ rank last) :
    Clean rank limit (front ++ last :: rest) ↔ Clean rank limit rest := by
  obtain ⟨hfront, hrest⟩ := rank_around hsorted
  refine forall_congr' fun c => ?_
  rcases lt_trichotomy c (rank last) with hlt | heq | hgt
  · -- an older rank: the whole first page is newer
    have hall : newer rank front c = front.length := by
      rw [newer, List.countP_eq_length]
      intro r hr
      simpa using hlt.trans_le (hfront r hr)
    have hnone : size rank front c = 0 :=
      size_eq_zero fun r hr => (hlt.trans_le (hfront r hr)).ne'
    have hnewer : newer rank (front ++ last :: rest) c = limit + newer rank rest c := by
      rw [newer_append, newer_cons, hall, if_pos hlt]
      omega
    have hsize : size rank (front ++ last :: rest) c = size rank rest c := by
      rw [size_append, size_cons, hnone, if_neg hlt.ne', Nat.zero_add, Nat.add_zero]
    rw [hnewer, hsize]
    refine imp_congr_right fun _ => ⟨fun h k => ?_, fun h k => ?_⟩
    · have hk := h (k + 1)
      rw [Nat.add_mul, Nat.one_mul] at hk
      omega
    · cases k with
      | zero => omega
      | succ k =>
          have hk := h k
          rw [Nat.add_mul, Nat.one_mul]
          omega
  · -- the rank of the last row itself: it has one row
    subst heq
    have hnone : ∀ rows : List ρ, (∀ r ∈ rows, r ∈ front ++ rest) → size rank rows (rank last) = 0 :=
      fun rows hrows => size_eq_zero fun r hr => halone r (hrows r hr)
    have hsize : size rank (front ++ last :: rest) (rank last) = 1 := by
      rw [size_append, size_cons, hnone front fun r hr => List.mem_append_left _ hr,
        hnone rest fun r hr => List.mem_append_right _ hr, if_pos rfl]
    rw [hsize, hnone rest fun r hr => List.mem_append_right _ hr]
    exact ⟨fun _ h => by omega, fun _ h => by omega⟩
  · -- a newer rank: its rows are on the first page, before the last one
    have hnone : size rank rest c = 0 := size_eq_zero fun r hr => ((hrest r hr).trans_lt hgt).ne
    have hnewer : newer rank (front ++ last :: rest) c = newer rank front c := by
      rw [newer_append, newer_cons, newer_eq_zero fun r hr => ((hrest r hr).trans_lt hgt).le,
        if_neg hgt.not_gt, Nat.add_zero]
    have hsize : size rank (front ++ last :: rest) c = size rank front c := by
      rw [size_append, size_cons, hnone, if_neg hgt.ne, Nat.add_zero]
    have hle : newer rank front c + size rank front c ≤ front.length := newer_add_size_le front c
    rw [hnewer, hsize, hnone]
    refine ⟨fun _ h => by omega, fun _ _ k hk => ?_⟩
    have hk0 : k ≠ 0 := by
      rintro rfl
      omega
    have hpage : limit ≤ k * limit := Nat.le_mul_of_pos_left limit (Nat.pos_of_ne_zero hk0)
    omega

end counting

/-! ## One page after another -/

section pages

variable {key : ρ → κ} {rank : ρ → γ} {limit : ℕ} {rows : List ρ} {cursor : Option κ}
  {l front rest : List ρ} {last : ρ}

/-- The rows after the cursor. -/
theorem mem_matching {r : ρ} :
    r ∈ matching key rows cursor ↔ r ∈ rows ∧ ∀ c ∈ cursor, key r < c := by
  unfold matching
  rw [List.mem_filter]
  cases cursor <;> simp

/-- A list with a full page in it, and the last row of the page. -/
theorem exists_last_of_page (hpos : 0 < limit) (h : limit ≤ l.length) :
    ∃ front last rest, l = front ++ last :: rest ∧ front.length + 1 = limit := by
  have hlt : limit - 1 < l.length := by omega
  refine ⟨l.take (limit - 1), l[limit - 1], l.drop (limit - 1 + 1), ?_, ?_⟩
  · rw [List.getElem_cons_drop, List.take_append_drop]
  · rw [List.length_take]
    omega

/-- What the page and the rest of the list are, around its last row. -/
theorem take_of_page (hlen : front.length + 1 = limit) :
    (front ++ last :: rest).take limit = front ++ [last] := by
  rw [← hlen, List.take_append, List.take_of_length_le (by omega)]
  simp

/-- The rows after the cursor of the next page, among the rows after the cursor of this one. -/
theorem matching_next (hlast : last ∈ matching key rows cursor)
    (hperm : l.Perm (matching key rows cursor)) :
    (matching key rows (some (key last))).Perm (l.filter fun r => key r < key last) := by
  have hfilter : matching key rows (some (key last)) =
      (matching key rows cursor).filter fun r => key r < key last := by
    unfold matching
    rw [List.filter_filter]
    refine List.filter_congr fun r _ => ?_
    have hbelow := (mem_matching.mp hlast).2
    cases cursor with
    | none => simp
    | some c =>
        have hlt : key last < c := hbelow c rfl
        by_cases hr : key r < key last
        · simp [hr, hr.trans hlt]
        · simp [hr]
  rw [hfilter]
  exact (hperm.filter _).symm

/-- When no other row has the rank of the last one, the cursor cuts right after it. -/
theorem matching_next_of_alone (hmono : ∀ x y, key x ≤ key y → rank x ≤ rank y)
    (hperm : (front ++ last :: rest).Perm (matching key rows cursor))
    (hsorted : (front ++ last :: rest).Pairwise fun a b => rank b ≤ rank a)
    (halone : ∀ r ∈ front ++ rest, rank r ≠ rank last) :
    (matching key rows (some (key last))).Perm rest := by
  obtain ⟨hfront, hrest⟩ := rank_around hsorted
  have hlast : last ∈ matching key rows cursor := hperm.subset (by simp)
  have hbefore : front.filter (fun r => key r < key last) = [] := by
    rw [List.filter_eq_nil_iff]
    intro r hr hlt
    have hle := hmono r last (of_decide_eq_true hlt).le
    exact halone r (List.mem_append_left _ hr) (le_antisymm hle (hfront r hr))
  have hafter : rest.filter (fun r => key r < key last) = rest := by
    rw [List.filter_eq_self]
    intro r hr
    apply decide_eq_true
    by_contra hge
    have hle := hmono last r (not_lt.mp hge)
    exact halone r (List.mem_append_right _ hr) (le_antisymm (hrest r hr) hle)
  have hnext := matching_next hlast hperm
  rwa [List.filter_append, hbefore, List.filter_cons_of_neg (by simp), hafter,
    List.nil_append] at hnext

variable {page : Option κ → List ρ}

/-- Nothing comes that is not after the cursor. -/
theorem mem_of_enumerate (hpages : ∀ cursor, IsPage rank limit (matching key rows cursor) (page cursor)) :
    ∀ {fuel : ℕ} {cursor : Option κ} {result : List ρ},
      enumerate key page limit fuel cursor = some result →
        ∀ r ∈ result, r ∈ matching key rows cursor
  | fuel + 1, cursor, result, h, r, hr => by
      obtain ⟨l, hperm, -, hpage⟩ := hpages cursor
      have hmem : ∀ x ∈ page cursor, x ∈ matching key rows cursor := by
        intro x hx
        rw [hpage] at hx
        exact hperm.subset (List.mem_of_mem_take hx)
      rw [enumerate] at h
      split at h
      · obtain rfl := Option.some.inj h
        exact hmem r hr
      · split at h
        · cases h
        · rename_i last hlast
          obtain ⟨later, hlater, rfl⟩ := Option.map_eq_some_iff.mp h
          rcases List.mem_append.mp hr with hr | hr
          · exact hmem r hr
          · obtain ⟨hrow, hbelow⟩ := mem_matching.mp (mem_of_enumerate hpages hlater r hr)
            have hlastmem := mem_matching.mp (hmem last (List.mem_of_getLast? hlast))
            exact mem_matching.mpr ⟨hrow, fun c hc =>
              (hbelow _ rfl).trans (hlastmem.2 c hc)⟩

/-- The rows of the first page come. -/
theorem mem_enumerate_of_page {fuel : ℕ} {result : List ρ}
    (h : enumerate key page limit fuel cursor = some result) : ∀ r ∈ page cursor, r ∈ result := by
  intro r hr
  cases fuel with
  | zero => cases h
  | succ fuel =>
      rw [enumerate] at h
      split at h
      · obtain rfl := Option.some.inj h
        exact hr
      · split at h
        · cases h
        · obtain ⟨later, -, rfl⟩ := Option.map_eq_some_iff.mp h
          exact List.mem_append_left _ hr

/-- One full page, and then the pages from its last row on. -/
theorem enumerate_succ {fuel : ℕ} (hpage : page cursor = front ++ [last])
    (hlen : front.length + 1 = limit) :
    enumerate key page limit (fuel + 1) cursor =
      (enumerate key page limit fuel (some (key last))).map ((front ++ [last]) ++ ·) := by
  rw [enumerate, hpage, List.getLast?_concat, if_neg (by simp; omega)]

/-- **Without a page that ends inside a group every row comes exactly once.** -/
theorem enumerate_of_clean (hmono : ∀ x y, key x ≤ key y → rank x ≤ rank y) (hpos : 0 < limit)
    (hpages : ∀ cursor, IsPage rank limit (matching key rows cursor) (page cursor)) :
    ∀ {fuel : ℕ} {cursor : Option κ}, (matching key rows cursor).length < fuel →
      Clean rank limit (matching key rows cursor) →
        ∃ result, enumerate key page limit fuel cursor = some result ∧
          result.Perm (matching key rows cursor)
  | fuel + 1, cursor, hfuel, hclean => by
      obtain ⟨l, hperm, hsorted, hpage⟩ := hpages cursor
      by_cases hshort : l.length < limit
      · rw [List.take_of_length_le hshort.le] at hpage
        refine ⟨l, ?_, hperm⟩
        rw [enumerate, hpage, if_pos hshort]
      · obtain ⟨front, last, rest, rfl, hlen⟩ := exists_last_of_page hpos (Nat.le_of_not_lt hshort)
        rw [take_of_page hlen] at hpage
        have hcleanl := (Clean.perm_iff hperm).mpr hclean
        have halone := hcleanl.alone hsorted hlen
        have hnext := matching_next_of_alone hmono hperm hsorted halone
        have hfuel' : (matching key rows (some (key last))).length < fuel := by
          rw [hnext.length_eq]
          rw [← hperm.length_eq, List.length_append, List.length_cons] at hfuel
          omega
        have hclean' := (Clean.perm_iff hnext).mpr ((clean_rest_iff hsorted hlen halone).mp hcleanl)
        obtain ⟨later, hlater, hperm'⟩ := enumerate_of_clean hmono hpos hpages hfuel' hclean'
        refine ⟨(front ++ [last]) ++ later, ?_, ?_⟩
        · rw [enumerate_succ hpage hlen, hlater]
          rfl
        · have hall : (front ++ [last] ++ later).Perm (front ++ [last] ++ rest) :=
            (List.perm_append_left_iff _).mpr (hperm'.trans hnext)
          rw [List.append_assoc front [last] rest] at hall
          exact hall.trans hperm

end pages

/-! ## A database that makes the worst of a group -/

section worst

variable (key : ρ → κ) (rank : ρ → γ)

/-- Descending by rank, and ascending by key within a group. -/
def Against (a b : ρ) : Prop := rank b < rank a ∨ (rank b = rank a ∧ key a ≤ key b)

instance : DecidableRel (Against key rank) := fun a b =>
  inferInstanceAs (Decidable (rank b < rank a ∨ (rank b = rank a ∧ key a ≤ key b)))

instance : Std.Total (Against key rank) where
  total a b := by
    rcases lt_trichotomy (rank b) (rank a) with h | h | h
    · exact .inl (.inl h)
    · rcases le_total (key a) (key b) with hk | hk
      · exact .inl (.inr ⟨h, hk⟩)
      · exact .inr (.inr ⟨h.symm, hk⟩)
    · exact .inr (.inl h)

instance : IsTrans ρ (Against key rank) where
  trans a b c := by
    rintro (h | ⟨h, hk⟩) (h' | ⟨h', hk'⟩)
    · exact .inl (h'.trans h)
    · exact .inl (h' ▸ h)
    · exact .inl (h ▸ h')
    · exact .inr ⟨h'.trans h, hk.trans hk'⟩

/-- The pages of that database. -/
def worstPage (rows : List ρ) (limit : ℕ) (cursor : Option κ) : List ρ :=
  ((matching key rows cursor).insertionSort (Against key rank)).take limit

variable {key rank} {rows front rest : List ρ} {last : ρ} {limit : ℕ}

/-- A row that comes before another has at least its rank. -/
theorem Against.rank_le {a b : ρ} (h : Against key rank a b) : rank b ≤ rank a :=
  h.elim le_of_lt fun h => h.1.le

/-- Within a group the keys rise. -/
theorem Against.key_le {a b : ρ} (h : Against key rank a b) (heq : rank b = rank a) :
    key a ≤ key b := by
  rcases h with hlt | ⟨-, hle⟩
  · exact absurd heq hlt.ne
  · exact hle

variable (key rank) in
/-- The rows of such a page are the first ones of all rows, sorted against the cursor. -/
theorem exists_against (rows : List ρ) (limit : ℕ) (cursor : Option κ) :
    ∃ l : List ρ, l.Perm (matching key rows cursor) ∧ l.Pairwise (Against key rank) ∧
      worstPage key rank rows limit cursor = l.take limit :=
  ⟨_, List.perm_insertionSort (Against key rank) _,
    List.pairwise_insertionSort (Against key rank) _, rfl⟩

/-- The worst page is a page. -/
theorem isPage_worstPage (cursor : Option κ) :
    IsPage rank limit (matching key rows cursor) (worstPage key rank rows limit cursor) := by
  obtain ⟨l, hperm, hagainst, hpage⟩ := exists_against key rank rows limit cursor
  exact ⟨l, hperm, hagainst.imp Against.rank_le, hpage⟩

variable (key rank) in
/-- A page that any row can be on has a row of at least its rank. -/
theorem exists_mem_worstPage (hpos : 0 < limit) {cursor : Option κ} {x : ρ}
    (hx : x ∈ matching key rows cursor) :
    ∃ z ∈ worstPage key rank rows limit cursor, rank x ≤ rank z := by
  obtain ⟨l, hperm, hagainst, hpage⟩ := exists_against key rank rows limit cursor
  have hxl := hperm.symm.subset hx
  cases l with
  | nil => cases hxl
  | cons z l =>
      refine ⟨z, ?_, ?_⟩
      · obtain ⟨n, rfl⟩ : ∃ n, limit = n + 1 := ⟨limit - 1, by omega⟩
        rw [hpage]
        exact List.mem_cons_self
      · rcases List.mem_cons.mp hxl with rfl | hxl
        · exact le_rfl
        · exact ((List.pairwise_cons.mp hagainst).1 x hxl).rank_le

/-- A row of the group that is still to come has too high a key for the cursor. -/
theorem not_mem_next {x : ρ} (hagainst : (front ++ last :: rest).Pairwise (Against key rank))
    (hx : x ∈ rest) (heq : rank x = rank last) : x ∉ matching key rows (some (key last)) := by
  intro hmem
  obtain ⟨-, htail, -⟩ := List.pairwise_append.mp hagainst
  have hle : key last ≤ key x := ((List.pairwise_cons.mp htail).1 x hx).key_le heq
  exact absurd ((mem_matching.mp hmem).2 _ rfl) (not_lt.mpr hle)

/-- A row of the group that has come passes the cursor once more. -/
theorem mem_next {x : ρ} {cursor : Option κ}
    (hkeys : ∀ x ∈ rows, ∀ y ∈ rows, key x = key y → x = y) (hnodup : rows.Nodup)
    (hperm : (front ++ last :: rest).Perm (matching key rows cursor))
    (hagainst : (front ++ last :: rest).Pairwise (Against key rank))
    (hx : x ∈ front) (heq : rank x = rank last) : x ∈ matching key rows (some (key last)) := by
  obtain ⟨-, -, hacross⟩ := List.pairwise_append.mp hagainst
  have hle : key x ≤ key last := (hacross x hx last List.mem_cons_self).key_le heq.symm
  have hxrow := (mem_matching.mp (hperm.subset (List.mem_append_left _ hx))).1
  have hlastrow := (mem_matching.mp (hperm.subset (a := last) (by simp))).1
  have hne : x ≠ last := by
    rintro rfl
    have hnd : (front ++ x :: rest).Nodup := hperm.nodup_iff.mpr (hnodup.filter _)
    exact (List.nodup_append.mp hnd).2.2 x hx x List.mem_cons_self rfl
  have hlt : key x < key last := lt_of_le_of_ne hle fun h => hne (hkeys x hxrow last hlastrow h)
  exact mem_matching.mpr ⟨hxrow, fun c hc => Option.some.inj hc ▸ hlt⟩

/-- **A page that ends inside a group loses or repeats a row.** -/
theorem not_perm_of_not_clean (hmono : ∀ x y, key x ≤ key y → rank x ≤ rank y) (hpos : 0 < limit)
    (hkeys : ∀ x ∈ rows, ∀ y ∈ rows, key x = key y → x = y) (hnodup : rows.Nodup) :
    ∀ {fuel : ℕ} {cursor : Option κ} {result : List ρ},
      ¬ Clean rank limit (matching key rows cursor) →
      enumerate key (worstPage key rank rows limit) limit fuel cursor = some result →
        ¬ result.Perm (matching key rows cursor)
  | fuel + 1, cursor, result, hclean, henum, hresult => by
      obtain ⟨l, hperm, hagainst, hpage⟩ := exists_against key rank rows limit cursor
      have hsorted := hagainst.imp Against.rank_le
      by_cases hshort : l.length < limit
      · exact hclean ((Clean.perm_iff hperm).mp (clean_of_short hshort))
      obtain ⟨front, last, rest, rfl, hlen⟩ := exists_last_of_page hpos (Nat.le_of_not_lt hshort)
      rw [take_of_page hlen] at hpage
      rw [enumerate_succ hpage hlen] at henum
      obtain ⟨later, hlater, rfl⟩ := Option.map_eq_some_iff.mp henum
      have hlaterperm : later.Perm rest := by
        have hall := hresult.trans hperm.symm
        have hsplit : front ++ last :: rest = front ++ [last] ++ rest := by simp
        rw [hsplit] at hall
        exact (List.perm_append_left_iff _).mp hall
      by_cases halone : ∀ r ∈ front ++ rest, rank r ≠ rank last
      · -- the group is cut nowhere here, so the fault is on a later page
        have hnext := matching_next_of_alone hmono hperm hsorted halone
        refine not_perm_of_not_clean hmono hpos hkeys hnodup ?_ hlater (hlaterperm.trans hnext.symm)
        rw [Clean.perm_iff hnext, ← clean_rest_iff hsorted hlen halone, Clean.perm_iff hperm]
        exact hclean
      by_cases hmore : ∃ x ∈ rest, rank x = rank last
      · obtain ⟨x, hx, heq⟩ := hmore
        exact not_mem_next hagainst hx heq
          (mem_of_enumerate isPage_worstPage hlater x (hlaterperm.symm.subset hx))
      · push Not at halone hmore
        obtain ⟨x, hx, heq⟩ := halone
        have hxfront : x ∈ front := (List.mem_append.mp hx).resolve_right fun hx => hmore x hx heq
        -- the first row of the next page has the rank of the group, and the rest has none such
        have hnext := mem_next hkeys hnodup hperm hagainst hxfront heq
        obtain ⟨z, hz, hrank⟩ := exists_mem_worstPage key rank hpos hnext
        have hzrest := hlaterperm.subset (mem_enumerate_of_page hlater z hz)
        have hrest : ∀ r ∈ rest, rank r ≤ rank last := (rank_around hsorted).2
        exact hmore z hzrest (le_antisymm (hrest z hzrest) (heq ▸ hrank))

end worst

/-! ## Every row exactly once -/

variable {key : ρ → κ} {rank : ρ → γ} {rows : List ρ} {limit : ℕ}

/-- Without a cursor every row matches. -/
theorem matching_none : matching key rows none = rows := by simp [matching]

/-- Pages without a cut through equal ranks bring every row once. -/
theorem enumerate_perm_of_clean (hmono : ∀ x y, key x ≤ key y → rank x ≤ rank y) (hpos : 0 < limit)
    (hclean : Clean rank limit rows) {page : Option κ → List ρ}
    (hpages : ∀ cursor, IsPage rank limit (matching key rows cursor) (page cursor)) :
    ∃ result, enumerate key page limit (rows.length + 1) none = some result ∧
      result.Perm rows := by
  have hnone : matching key rows none = rows := matching_none
  rw [← hnone] at hclean
  have hfuel : (matching key rows none).length < rows.length + 1 := by
    rw [matching_none]
    exact Nat.lt_succ_self _
  obtain ⟨result, henum, hperm⟩ := enumerate_of_clean hmono hpos hpages hfuel hclean
  rw [matching_none] at hperm
  exact ⟨result, henum, hperm⟩

/-- **When keyset pagination is right.** -/
theorem enumerate_perm_iff (hmono : ∀ x y, key x ≤ key y → rank x ≤ rank y) (hpos : 0 < limit)
    (hkeys : ∀ x ∈ rows, ∀ y ∈ rows, key x = key y → x = y) (hnodup : rows.Nodup) :
    (∀ page : Option κ → List ρ,
      (∀ cursor, IsPage rank limit (matching key rows cursor) (page cursor)) →
        ∃ result, enumerate key page limit (rows.length + 1) none = some result ∧
          result.Perm rows) ↔ Clean rank limit rows := by
  have hnone : matching key rows none = rows := matching_none
  constructor
  · intro hall
    by_contra hclean
    obtain ⟨result, henum, hperm⟩ := hall (worstPage key rank rows limit) isPage_worstPage
    rw [← hnone] at hclean hperm
    exact not_perm_of_not_clean hmono hpos hkeys hnodup hclean henum hperm
  · exact fun hclean page hpages => enumerate_perm_of_clean hmono hpos hclean hpages

/-- **A rank that no two rows share decides the order.** -/
theorem enumerate_perm (hmono : ∀ x y, key x ≤ key y → rank x ≤ rank y) (hpos : 0 < limit)
    (hranks : ∀ c, size rank rows c ≤ 1) {page : Option κ → List ρ}
    (hpages : ∀ cursor, IsPage rank limit (matching key rows cursor) (page cursor)) :
    ∃ result, enumerate key page limit (rows.length + 1) none = some result ∧
      result.Perm rows := by
  refine enumerate_perm_of_clean hmono hpos (fun c hc => ?_) hpages
  exact absurd hc (by have := hranks c; omega)

end Keyset
