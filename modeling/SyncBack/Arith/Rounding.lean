import Mathlib.Algebra.Order.Floor.Ring
import Mathlib.Algebra.Order.Round
import Mathlib.Data.Rat.Floor
import Mathlib.Tactic.Linarith

/-!
# Rounding half to even

`roundHalfEven` takes the nearest integer, and of two nearest ones the even one; `roundTo` does the
same on a grid of fractions. Both are monotone and fix what lies on the grid, so that what lies
between two points of the grid stays there.
-/

namespace Rounding

variable {K : Type} [Field K] [LinearOrder K] [FloorRing K]

/-- The nearest integer, the even one of two. -/
def roundHalfEven (x : K) : ℤ :=
  if 2 * Int.fract x < 1 then ⌊x⌋
  else if 1 < 2 * Int.fract x then ⌊x⌋ + 1
  else if ⌊x⌋ % 2 = 0 then ⌊x⌋ else ⌊x⌋ + 1

/-- Rounding to a multiple of `1 / shift`. -/
def roundTo (shift : ℕ) (x : K) : K := roundHalfEven (x * shift) / shift

/-- Nothing is rounded below its floor. -/
theorem floor_le_roundHalfEven (x : K) : ⌊x⌋ ≤ roundHalfEven x := by
  unfold roundHalfEven
  split_ifs <;> omega

/-- Nor above the next integer. -/
theorem roundHalfEven_le_floor_add_one (x : K) : roundHalfEven x ≤ ⌊x⌋ + 1 := by
  unfold roundHalfEven
  split_ifs <;> omega

variable [IsStrictOrderedRing K]

/-- Integers are rounded to themselves. -/
@[simp] theorem roundHalfEven_intCast (n : ℤ) : roundHalfEven (n : K) = n := by
  simp [roundHalfEven]

/-- **Rounding is monotone.** -/
theorem roundHalfEven_mono {x y : K} (h : x ≤ y) : roundHalfEven x ≤ roundHalfEven y := by
  rcases (Int.floor_mono h).lt_or_eq with hlt | heq
  · -- there is an integer between them
    calc roundHalfEven x ≤ ⌊x⌋ + 1 := roundHalfEven_le_floor_add_one x
      _ ≤ ⌊y⌋ := hlt
      _ ≤ roundHalfEven y := floor_le_roundHalfEven y
  · have hfract : Int.fract x ≤ Int.fract y := by
      rw [Int.fract, Int.fract, heq]
      exact sub_le_sub_right h _
    unfold roundHalfEven
    rw [heq]
    split_ifs <;> first | omega | (exfalso; linarith)

/-- Rounding keeps the order. -/
theorem roundTo_mono (shift : ℕ) {x y : K} (h : x ≤ y) : roundTo shift x ≤ roundTo shift y := by
  have hshift : (0 : K) ≤ shift := Nat.cast_nonneg shift
  refine div_le_div_of_nonneg_right ?_ hshift
  exact_mod_cast roundHalfEven_mono (mul_le_mul_of_nonneg_right h hshift)

/-- What lies on the grid stays. -/
theorem roundTo_of_grid {shift : ℕ} (hpos : 0 < shift) (n : ℤ) :
    roundTo shift ((n : K) / shift) = n / shift := by
  have hne : (shift : K) ≠ 0 := Nat.cast_ne_zero.mpr hpos.ne'
  rw [roundTo, div_mul_cancel₀ _ hne, roundHalfEven_intCast]

end Rounding
