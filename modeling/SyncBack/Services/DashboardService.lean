import Mathlib.Data.List.Sort
import SyncBack.Arith.Rounding
import SyncBack.Calendar.Date

/-!
# Trends of the dashboard

`_interpolate` with the exceptions that its parts can raise: a key that is not in the dict, the
ends of an empty list, `max` and `min` of nothing, a division by zero. Values are exact rationals.

Source: `app/domain/services/dashboard_service.py`.
-/

namespace SyncBack

open Calendar (Date)

namespace DashboardService

/-- Source: `TrendPoint`. -/
structure TrendPoint where
  date : String
  value : ℚ
  deriving DecidableEq, Repr

/-- A dict from dates to values. -/
structure Snapshots where
  entries : List (Date × ℚ)
  distinct : (entries.map Prod.fst).Nodup

/-- What Python raises here. -/
inductive Raised where
  | keyError
  | indexError
  | valueError
  | zeroDivisionError
  deriving DecidableEq, Repr

/-- The value for a date, if the dict has it. -/
def Snapshots.get? (snaps : Snapshots) (d : Date) : Option ℚ :=
  (snaps.entries.find? (·.1 = d)).map Prod.snd

/-- `snap_by_date[d]`. -/
def Snapshots.getItem (snaps : Snapshots) (d : Date) : Except Raised ℚ :=
  (snaps.get? d).elim (.error .keyError) .ok

/-- `sorted(snap_by_date)`. -/
def Snapshots.known (snaps : Snapshots) : List Date :=
  (snaps.entries.map Prod.fst).insertionSort (· ≤ ·)

/-- `max(…)`. -/
def maxOf (dates : List Date) : Except Raised Date := dates.max?.elim (.error .valueError) .ok

/-- `min(…)`. -/
def minOf (dates : List Date) : Except Raised Date := dates.min?.elim (.error .valueError) .ok

/-- The quotient of two numbers of days. -/
def divide (a b : ℤ) : Except Raised ℚ :=
  if b = 0 then .error .zeroDivisionError else .ok ((a : ℚ) / b)

/-- The value on a day: the body of the loop of `_interpolate`. -/
def valueOn (snaps : Snapshots) (first last d : Date) : Except Raised ℚ :=
  if (snaps.get? d).isSome then snaps.getItem d
  else if d < first then snaps.getItem first
  else if last < d then snaps.getItem last
  else do
    let before ← maxOf (snaps.known.filter (· < d))
    let after ← minOf (snaps.known.filter (d < ·))
    let v₀ ← snaps.getItem before
    let v₁ ← snaps.getItem after
    let t ← divide (d.daysSince before) (after.daysSince before)
    pure (Rounding.roundTo 100 (v₀ + (v₁ - v₀) * t))

/-- Source: `_interpolate`. -/
def interpolate (dates : List Date) (snaps : Snapshots) (fallback : ℚ) :
    Except Raised (List TrendPoint) :=
  if snaps.entries = [] then pure (dates.map fun d => ⟨d.isoformat, fallback⟩)
  else do
    let first ← snaps.known.head?.elim (.error .indexError) .ok
    let last ← snaps.known.getLast?.elim (.error .indexError) .ok
    dates.mapM fun d => do
      let v ← valueOn snaps first last d
      pure ⟨d.isoformat, v⟩

end DashboardService

end SyncBack
