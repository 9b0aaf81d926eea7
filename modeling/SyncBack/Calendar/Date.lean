import Mathlib.Algebra.BigOperators.Intervals
import Mathlib.Algebra.Order.BigOperators.Group.Finset
import Mathlib.Data.Prod.Lex
import Mathlib.Tactic.IntervalCases

/-!
# Dates of the Gregorian calendar

A date is a year, a month and a day of that month. Dates are compared in this order;
`Date.toordinal` counts the days up to a date, and counts them in the same order
(`toordinal_strictMono`).
-/

namespace Calendar

def isLeap (year : ℕ) : Bool := year % 4 = 0 && (year % 100 ≠ 0 || year % 400 = 0)

def daysInMonth (year month : ℕ) : ℕ :=
  if month = 2 then if isLeap year then 29 else 28
  else if month ∈ [4, 6, 9, 11] then 30 else 31

def daysInYear (year : ℕ) : ℕ := if isLeap year then 366 else 365

/-- The days before the first of January. -/
def daysBeforeYear (year : ℕ) : ℕ :=
  (year - 1) * 365 + (year - 1) / 4 - (year - 1) / 100 + (year - 1) / 400

/-- The days of the year before the first of the month. -/
def daysBeforeMonth (year month : ℕ) : ℕ := ∑ m ∈ Finset.Ico 1 month, daysInMonth year m

/-- A day between 0001-01-01 and 9999-12-31. -/
@[ext] structure Date where
  year : ℕ
  month : ℕ
  day : ℕ
  year_mem : 1 ≤ year ∧ year ≤ 9999
  month_mem : 1 ≤ month ∧ month ≤ 12
  day_mem : 1 ≤ day ∧ day ≤ daysInMonth year month
  deriving DecidableEq

namespace Date

/-- What dates are compared by. -/
def key (d : Date) : ℕ ×ₗ ℕ ×ₗ ℕ := toLex (d.year, toLex (d.month, d.day))

/-- A date is known by its key. -/
theorem key_injective : Function.Injective key := by
  intro a b h
  obtain ⟨hyear, hrest⟩ := Prod.mk.inj (toLex.injective h)
  obtain ⟨hmonth, hday⟩ := Prod.mk.inj (toLex.injective hrest)
  exact Date.ext hyear hmonth hday

instance : LinearOrder Date := LinearOrder.lift' key key_injective

/-- The number of the day, where 0001-01-01 is the first. -/
def toordinal (d : Date) : ℕ := daysBeforeYear d.year + daysBeforeMonth d.year d.month + d.day

/-- The days from `b` to `a`. -/
def daysSince (a b : Date) : ℤ := (a.toordinal : ℤ) - b.toordinal

/-- A number with leading zeros. -/
def padded (width n : ℕ) : String := (Nat.repr n).leftpad width '0'

/-- `YYYY-MM-DD`. -/
def isoformat (d : Date) : String :=
  padded 4 d.year ++ "-" ++ padded 2 d.month ++ "-" ++ padded 2 d.day

end Date

/-! ## Counting days -/

/-- One year more. -/
theorem daysBeforeYear_succ {year : ℕ} (h : 1 ≤ year) :
    daysBeforeYear (year + 1) = daysBeforeYear year + daysInYear year := by
  obtain ⟨n, rfl⟩ : ∃ n, year = n + 1 := ⟨year - 1, by omega⟩
  have hle : n / 100 ≤ n / 4 := Nat.div_le_div_left (by decide) (by decide)
  unfold daysBeforeYear daysInYear isLeap
  rw [Nat.add_sub_cancel, Nat.add_sub_cancel, Nat.succ_div, Nat.succ_div, Nat.succ_div]
  generalize n / 4 = fours, n / 100 = hundreds, n / 400 = fourHundreds at hle ⊢
  simp only [Bool.and_eq_true, Bool.or_eq_true, decide_eq_true_eq]
  split_ifs <;> omega

/-- Later years begin later. -/
theorem daysBeforeYear_le {year year' : ℕ} (h : 1 ≤ year) (hlt : year < year') :
    daysBeforeYear year + daysInYear year ≤ daysBeforeYear year' := by
  induction year', hlt using Nat.le_induction with
  | base => exact (daysBeforeYear_succ h).ge
  | succ year' hle ih =>
      rw [daysBeforeYear_succ (by omega)]
      exact ih.trans (Nat.le_add_right _ _)

/-- One month more. -/
theorem daysBeforeMonth_succ {year month : ℕ} (h : 1 ≤ month) :
    daysBeforeMonth year (month + 1) = daysBeforeMonth year month + daysInMonth year month :=
  Finset.sum_Ico_succ_top h _

/-- Later months begin later. -/
theorem daysBeforeMonth_le {year month month' : ℕ} (h : 1 ≤ month) (hlt : month < month') :
    daysBeforeMonth year month + daysInMonth year month ≤ daysBeforeMonth year month' := by
  rw [← daysBeforeMonth_succ h]
  exact Finset.sum_le_sum_of_subset (Finset.Ico_subset_Ico_right hlt)

/-- The months fill the year. -/
theorem daysBeforeMonth_thirteen (year : ℕ) : daysBeforeMonth year 13 = daysInYear year := by
  unfold daysBeforeMonth daysInMonth daysInYear
  cases isLeap year <;> rfl

namespace Date

/-- Dates are compared from the year down to the day. -/
theorem lt_iff {a b : Date} : a < b ↔
    a.year < b.year ∨ a.year = b.year ∧
      (a.month < b.month ∨ a.month = b.month ∧ a.day < b.day) := by
  change a.key < b.key ↔ _
  rw [Prod.Lex.lt_iff, Prod.Lex.lt_iff]
  rfl

/-- **Later dates have higher numbers.** -/
theorem toordinal_strictMono : StrictMono toordinal := by
  intro a b h
  have hmonth := a.month_mem
  have hday := a.day_mem
  have hday' := b.day_mem
  have hinYear : daysBeforeMonth a.year a.month + daysInMonth a.year a.month ≤ daysInYear a.year := by
    rw [← daysBeforeMonth_thirteen]
    exact daysBeforeMonth_le hmonth.1 (by omega)
  unfold toordinal
  rcases lt_iff.mp h with hlt | ⟨heq, hlt | ⟨heqm, hlt⟩⟩
  · have hyears := daysBeforeYear_le a.year_mem.1 hlt
    omega
  · have hmonths : daysBeforeMonth a.year a.month + daysInMonth a.year a.month ≤
        daysBeforeMonth a.year b.month := daysBeforeMonth_le hmonth.1 hlt
    rw [← heq]
    omega
  · rw [← heq, ← heqm]
    omega

/-- Days have passed since an earlier date. -/
theorem daysSince_pos {a b : Date} : 0 < a.daysSince b ↔ b < a := by
  rw [daysSince, sub_pos, Nat.cast_lt, toordinal_strictMono.lt_iff_lt]

/-- The later the date, the more days have passed. -/
theorem daysSince_mono {a a' : Date} (b : Date) (h : a ≤ a') : a.daysSince b ≤ a'.daysSince b := by
  unfold daysSince
  have hle := toordinal_strictMono.monotone h
  omega

/-- None has passed since the date itself. -/
@[simp] theorem daysSince_self (a : Date) : a.daysSince a = 0 := sub_self _

end Date

end Calendar
