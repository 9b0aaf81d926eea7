import Mathlib.Data.List.Basic
import Mathlib.Tactic.Common

/-!
# Pagination by offset

A list is read in slices of `limit` elements, from the offset 0 on. What the slices up to an offset
bring together is the part of the list before it (`take_append_slice`); a slice that is not full
ends the list (`take_of_short`), and one that is empty begins at its end (`slice_eq_nil_iff`).
-/

namespace Offsets

variable {α : Type} {l : List α} {limit offset : ℕ}

/-- The answer to `LIMIT limit OFFSET offset`. -/
def slice (l : List α) (limit offset : ℕ) : List α := (l.drop offset).take limit

/-- How long a page is. -/
theorem length_slice : (slice l limit offset).length = min limit (l.length - offset) := by
  rw [slice, List.length_take, List.length_drop]

/-- The part before an offset and the slice at it. -/
theorem take_append_slice : l.take offset ++ slice l limit offset = l.take (offset + limit) :=
  List.take_add.symm

/-- The slice at an offset and the part after it. -/
theorem slice_append_drop : slice l limit offset ++ l.drop (offset + limit) = l.drop offset := by
  rw [slice, ← List.drop_drop, List.take_append_drop]

/-- A page is empty beyond the end. -/
theorem slice_eq_nil_iff (hpos : 0 < limit) : slice l limit offset = [] ↔ l.length ≤ offset := by
  rw [← List.length_eq_zero_iff, length_slice]
  omega

/-- A page is short if it reaches the end. -/
theorem length_slice_lt_iff (hpos : 0 < limit) :
    (slice l limit offset).length < limit ↔ l.length < offset + limit := by
  rw [length_slice]
  omega

/-- A short page is the rest. -/
theorem slice_of_short (hpos : 0 < limit) (hshort : (slice l limit offset).length < limit) :
    slice l limit offset = l.drop offset := by
  rw [length_slice_lt_iff hpos] at hshort
  refine List.take_of_length_le ?_
  rw [List.length_drop]
  omega

/-- After a slice that is not full nothing is left. -/
theorem take_of_short (hpos : 0 < limit) (hshort : (slice l limit offset).length < limit) :
    l.take (offset + limit) = l :=
  List.take_of_length_le (Nat.le_of_lt ((length_slice_lt_iff hpos).mp hshort))

/-- A page number and the offset at which the page begins. -/
theorem page_le_iff (hpos : 0 < limit) {page : ℕ} :
    page ≤ l.length / limit ↔ page * limit ≤ l.length := Nat.le_div_iff_mul_le hpos

/-- A page that is not full is the last one. -/
theorem page_of_short (hpos : 0 < limit) {page : ℕ} (hpage : page ≤ l.length / limit)
    (hshort : (slice l limit (page * limit)).length < limit) : l.length / limit = page := by
  rw [length_slice_lt_iff hpos] at hshort
  refine Nat.div_eq_of_lt_le ((page_le_iff hpos).mp hpage) ?_
  rwa [Nat.succ_mul]

/-- After a full page the next one begins inside the list or at its end. -/
theorem next_page (hpos : 0 < limit) {page : ℕ}
    (hfull : ¬ (slice l limit (page * limit)).length < limit) : page + 1 ≤ l.length / limit := by
  rw [length_slice_lt_iff hpos] at hfull
  rw [page_le_iff hpos, Nat.succ_mul]
  omega

end Offsets
