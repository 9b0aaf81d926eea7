import Mathlib.Tactic.NormNum
import SyncBack.Services.DashboardService

/-!
# The trend goes from snapshot to snapshot

Between two adjacent snapshots the value of a day is a point of the line through both, rounded to
the grid of hundredths. The snapshots lie on that grid themselves, so that rounding keeps between
them whatever the line has there (`valueOn_of_adjacent`).
-/

namespace SyncBack

namespace DashboardService

open Calendar (Date)
open Rounding

variable {snaps : Snapshots} {first last before after d d' : Date} {v v₀ v₁ : ℚ}

/-- Two known days with none between them. -/
structure Snapshots.Adjacent (snaps : Snapshots) (before after : Date) : Prop where
  before_mem : before ∈ snaps.known
  after_mem : after ∈ snaps.known
  lt : before < after
  none_between : ∀ k ∈ snaps.known, k ≤ before ∨ after ≤ k

/-- Every snapshot has at most two decimals. -/
def Snapshots.Hundredths (snaps : Snapshots) : Prop :=
  ∀ d v, snaps.get? d = some v → ∃ n : ℤ, v = n / (100 : ℕ)

/-- The line through the values of two days. -/
def line (before after : Date) (v₀ v₁ : ℚ) (d : Date) : ℚ :=
  v₀ + (v₁ - v₀) * ((d.daysSince before : ℚ) / after.daysSince before)

/-! ## Snapshots -/

/-- A date is known if it has a value. -/
theorem mem_known_iff : d ∈ snaps.known ↔ ∃ v, snaps.get? d = some v := by
  have hfound : (snaps.get? d).isSome = true ↔ ∃ entry ∈ snaps.entries, entry.1 = d := by
    rw [Snapshots.get?, Option.isSome_map, List.find?_isSome]
    simp only [decide_eq_true_eq]
  rw [← Option.isSome_iff_exists, hfound, Snapshots.known, List.mem_insertionSort, List.mem_map]

/-- A known date is looked up. -/
theorem getItem_eq (h : snaps.get? d = some v) : snaps.getItem d = .ok v := by
  rw [Snapshots.getItem, h]
  rfl

/-- A snapshot is not changed by rounding. -/
theorem roundTo_snapshot (hgrid : snaps.Hundredths) (h : snaps.get? d = some v) :
    roundTo 100 v = v := by
  obtain ⟨n, rfl⟩ := hgrid d v h
  rw [roundTo_of_grid (by decide)]

/-- The known dates are in order. -/
theorem known_sorted (snaps : Snapshots) : snaps.known.Pairwise (· ≤ ·) :=
  List.pairwise_insertionSort _ _

/-- A dict that is not empty has a first and a last day. -/
theorem exists_ends (hne : snaps.entries ≠ []) : ∃ first last,
    snaps.known.head? = some first ∧ snaps.known.getLast? = some last ∧
      (first ∈ snaps.known ∧ ∀ k ∈ snaps.known, first ≤ k) ∧
      (last ∈ snaps.known ∧ ∀ k ∈ snaps.known, k ≤ last) := by
  have hknown : snaps.known ≠ [] := by
    intro hnil
    have hperm := List.perm_insertionSort (· ≤ ·) (snaps.entries.map Prod.fst)
    rw [← Snapshots.known, hnil] at hperm
    exact hne (List.map_eq_nil_iff.mp hperm.nil_eq.symm)
  obtain ⟨first, rest, hfirst⟩ := List.exists_cons_of_ne_nil hknown
  obtain ⟨front, last, hlast⟩ := (List.eq_nil_or_concat' snaps.known).resolve_left hknown
  have hsorted := known_sorted snaps
  refine ⟨first, last, ?_, ?_, ⟨?_, fun k hk => ?_⟩, ?_, fun k hk => ?_⟩
  · rw [hfirst, List.head?_cons]
  · rw [hlast, List.getLast?_concat]
  · rw [hfirst]
    exact List.mem_cons_self
  · rw [hfirst] at hsorted hk
    rcases List.mem_cons.mp hk with rfl | hk
    · exact le_rfl
    · exact (List.pairwise_cons.mp hsorted).1 k hk
  · rw [hlast]
    exact List.mem_append_right _ List.mem_cons_self
  · rw [hlast] at hsorted hk
    rcases List.mem_append.mp hk with hk | hk
    · exact (List.pairwise_append.mp hsorted).2.2 k hk last List.mem_cons_self
    · exact (List.mem_singleton.mp hk).le

/-! ## Minima and maxima -/

/-- The latest date. -/
theorem maxOf_eq {dates : List Date} (hmem : d ∈ dates) (hmax : ∀ k ∈ dates, k ≤ d) :
    maxOf dates = .ok d := by
  rw [maxOf, List.max?_eq_some_iff.mpr ⟨hmem, hmax⟩]
  rfl

/-- The earliest date. -/
theorem minOf_eq {dates : List Date} (hmem : d ∈ dates) (hmin : ∀ k ∈ dates, d ≤ k) :
    minOf dates = .ok d := by
  rw [minOf, List.min?_eq_some_iff.mpr ⟨hmem, hmin⟩]
  rfl

/-! ## The value of a day -/

/-- A known date has its value. -/
theorem valueOn_of_known (h : snaps.get? d = some v) : valueOn snaps first last d = .ok v := by
  rw [valueOn, if_pos (by rw [h]; rfl), getItem_eq h]

/-- A date that is not known has no value. -/
theorem get?_isSome_eq_false (h : d ∉ snaps.known) : ¬ (snaps.get? d).isSome = true := by
  rwa [Option.isSome_iff_exists, ← mem_known_iff]

/-- Before the first date the first value counts. -/
theorem valueOn_of_lt (hfirst : ∀ k ∈ snaps.known, first ≤ k) (hlt : d < first)
    (h : snaps.get? first = some v) : valueOn snaps first last d = .ok v := by
  have hnot : d ∉ snaps.known := fun hmem => absurd hlt (not_lt.mpr (hfirst d hmem))
  rw [valueOn, if_neg (get?_isSome_eq_false hnot), if_pos hlt, getItem_eq h]

/-- After the last date the last value counts. -/
theorem valueOn_of_gt (hle : first ≤ last) (hlast : ∀ k ∈ snaps.known, k ≤ last) (hlt : last < d)
    (h : snaps.get? last = some v) : valueOn snaps first last d = .ok v := by
  have hnot : d ∉ snaps.known := fun hmem => absurd hlt (not_lt.mpr (hlast d hmem))
  rw [valueOn, if_neg (get?_isSome_eq_false hnot), if_neg (not_lt.mpr (hle.trans hlt.le)),
    if_pos hlt, getItem_eq h]

/-- **On a gap day nothing is raised**: both neighbours are there, and they differ. -/
theorem valueOn_of_between (hfirst : ∀ k ∈ snaps.known, first ≤ k)
    (hlast : ∀ k ∈ snaps.known, k ≤ last) (hadj : snaps.Adjacent before after)
    (hbefore : before < d) (hafter : d < after) (h₀ : snaps.get? before = some v₀)
    (h₁ : snaps.get? after = some v₁) :
    valueOn snaps first last d = .ok (roundTo 100 (line before after v₀ v₁ d)) := by
  have hnot : d ∉ snaps.known := by
    intro hmem
    rcases hadj.none_between d hmem with hle | hle
    · exact absurd hbefore (not_lt.mpr hle)
    · exact absurd hafter (not_lt.mpr hle)
  have hmax : maxOf (snaps.known.filter (· < d)) = .ok before := by
    refine maxOf_eq (List.mem_filter.mpr ⟨hadj.before_mem, decide_eq_true hbefore⟩) fun k hk => ?_
    obtain ⟨hmem, hlt⟩ := List.mem_filter.mp hk
    refine (hadj.none_between k hmem).resolve_right fun hle => ?_
    exact absurd (hafter.trans_le hle) (of_decide_eq_true hlt).asymm
  have hmin : minOf (snaps.known.filter (d < ·)) = .ok after := by
    refine minOf_eq (List.mem_filter.mpr ⟨hadj.after_mem, decide_eq_true hafter⟩) fun k hk => ?_
    obtain ⟨hmem, hlt⟩ := List.mem_filter.mp hk
    refine (hadj.none_between k hmem).resolve_left fun hle => ?_
    exact absurd (hle.trans_lt hbefore) (of_decide_eq_true hlt).asymm
  have hdays : after.daysSince before ≠ 0 := (Date.daysSince_pos.mpr hadj.lt).ne'
  rw [valueOn, if_neg (get?_isSome_eq_false hnot),
    if_neg (not_lt.mpr ((hfirst before hadj.before_mem).trans hbefore.le)),
    if_neg (not_lt.mpr (hafter.le.trans (hlast after hadj.after_mem))), hmax, hmin]
  change (snaps.getItem before >>= fun _ => _) = _
  rw [getItem_eq h₀]
  change (snaps.getItem after >>= fun _ => _) = _
  rw [getItem_eq h₁]
  change (divide _ _ >>= fun _ => _) = _
  rw [divide, if_neg hdays]
  rfl

/-- A day between the first and the last one has neighbours. -/
theorem exists_adjacent (hfirst : first ∈ snaps.known) (hlast : last ∈ snaps.known)
    (hnot : d ∉ snaps.known) (hafter : ¬ d < first) (hbefore : ¬ last < d) :
    ∃ before after, snaps.Adjacent before after ∧ before < d ∧ d < after := by
  have hlt : first < d := lt_of_le_of_ne (not_lt.mp hafter) fun heq => hnot (heq ▸ hfirst)
  have hgt : d < last := lt_of_le_of_ne (not_lt.mp hbefore) fun heq => hnot (heq ▸ hlast)
  obtain ⟨before, hbefore⟩ := Option.isSome_iff_exists.mp (List.isSome_max?_of_mem
    (List.mem_filter.mpr ⟨hfirst, decide_eq_true hlt⟩ : first ∈ snaps.known.filter (· < d)))
  obtain ⟨after, hafter⟩ := Option.isSome_iff_exists.mp (List.isSome_min?_of_mem
    (List.mem_filter.mpr ⟨hlast, decide_eq_true hgt⟩ : last ∈ snaps.known.filter (d < ·)))
  obtain ⟨hmem₀, hmax⟩ := List.max?_eq_some_iff.mp hbefore
  obtain ⟨hmem₁, hmin⟩ := List.min?_eq_some_iff.mp hafter
  obtain ⟨hknown₀, hlt₀⟩ := List.mem_filter.mp hmem₀
  obtain ⟨hknown₁, hlt₁⟩ := List.mem_filter.mp hmem₁
  rw [decide_eq_true_eq] at hlt₀ hlt₁
  refine ⟨before, after, ⟨hknown₀, hknown₁, hlt₀.trans hlt₁, fun k hk => ?_⟩, hlt₀, hlt₁⟩
  rcases lt_trichotomy k d with hkd | rfl | hkd
  · exact .inl (hmax k (List.mem_filter.mpr ⟨hk, decide_eq_true hkd⟩))
  · exact absurd hk hnot
  · exact .inr (hmin k (List.mem_filter.mpr ⟨hk, decide_eq_true hkd⟩))

/-- **No day raises.** -/
theorem exists_valueOn (hfirst : first ∈ snaps.known ∧ ∀ k ∈ snaps.known, first ≤ k)
    (hlast : last ∈ snaps.known ∧ ∀ k ∈ snaps.known, k ≤ last) (d : Date) :
    ∃ v, valueOn snaps first last d = .ok v := by
  by_cases hknown : d ∈ snaps.known
  · obtain ⟨v, h⟩ := mem_known_iff.mp hknown
    exact ⟨v, valueOn_of_known h⟩
  by_cases hlt : d < first
  · obtain ⟨v, h⟩ := mem_known_iff.mp hfirst.1
    exact ⟨v, valueOn_of_lt hfirst.2 hlt h⟩
  by_cases hgt : last < d
  · obtain ⟨v, h⟩ := mem_known_iff.mp hlast.1
    exact ⟨v, valueOn_of_gt (hfirst.2 last hlast.1) hlast.2 hgt h⟩
  · obtain ⟨before, after, hadj, hbefore, hafter⟩ :=
      exists_adjacent hfirst.1 hlast.1 hknown hlt hgt
    obtain ⟨v₀, h₀⟩ := mem_known_iff.mp hadj.before_mem
    obtain ⟨v₁, h₁⟩ := mem_known_iff.mp hadj.after_mem
    exact ⟨_, valueOn_of_between hfirst.2 hlast.2 hadj hbefore hafter h₀ h₁⟩

/-! ## The line through two snapshots -/

/-- The line begins at the first value. -/
@[simp] theorem line_before : line before after v₀ v₁ before = v₀ := by simp [line]

/-- It ends at the second. -/
theorem line_after (hlt : before < after) : line before after v₀ v₁ after = v₁ := by
  have hdays : (after.daysSince before : ℚ) ≠ 0 :=
    Int.cast_ne_zero.mpr (Date.daysSince_pos.mpr hlt).ne'
  rw [line, div_self hdays]
  ring

/-- The part of the way that is behind a day grows with the days. -/
theorem share_mono (hlt : before < after) (h : d ≤ d') :
    (d.daysSince before : ℚ) / after.daysSince before ≤
      (d'.daysSince before : ℚ) / after.daysSince before := by
  have hdays : (0 : ℚ) ≤ after.daysSince before :=
    Int.cast_nonneg (Date.daysSince_pos.mpr hlt).le
  exact div_le_div_of_nonneg_right (Int.cast_le.mpr (Date.daysSince_mono before h)) hdays

/-- It does not fall when the values do not. -/
theorem line_mono (hlt : before < after) (hv : v₀ ≤ v₁) (h : d ≤ d') :
    line before after v₀ v₁ d ≤ line before after v₀ v₁ d' :=
  add_le_add_right (mul_le_mul_of_nonneg_left (share_mono hlt h) (sub_nonneg.mpr hv)) v₀

/-- It does not rise when they do not. -/
theorem line_anti (hlt : before < after) (hv : v₁ ≤ v₀) (h : d ≤ d') :
    line before after v₀ v₁ d' ≤ line before after v₀ v₁ d :=
  add_le_add_right (mul_le_mul_of_nonpos_left (share_mono hlt h) (sub_nonpos.mpr hv)) v₀

/-- **From one snapshot to the next the values are the rounded points of the line**, the two
snapshots included. -/
theorem valueOn_of_adjacent (hfirst : ∀ k ∈ snaps.known, first ≤ k)
    (hlast : ∀ k ∈ snaps.known, k ≤ last) (hgrid : snaps.Hundredths)
    (hadj : snaps.Adjacent before after) (h₀ : snaps.get? before = some v₀)
    (h₁ : snaps.get? after = some v₁) (hd : d ∈ Set.Icc before after) :
    valueOn snaps first last d = .ok (roundTo 100 (line before after v₀ v₁ d)) := by
  rcases hd.1.eq_or_lt with rfl | hbefore
  · rw [line_before, roundTo_snapshot hgrid h₀, valueOn_of_known h₀]
  rcases hd.2.eq_or_lt with rfl | hafter
  · rw [line_after hadj.lt, roundTo_snapshot hgrid h₁, valueOn_of_known h₁]
  · exact valueOn_of_between hfirst hlast hadj hbefore hafter h₀ h₁

/-- Rounded points of the line lie between its ends. -/
theorem roundTo_line_mem (hgrid : snaps.Hundredths) (hlt : before < after)
    (h₀ : snaps.get? before = some v₀) (h₁ : snaps.get? after = some v₁)
    (hd : d ∈ Set.Icc before after) :
    min v₀ v₁ ≤ roundTo 100 (line before after v₀ v₁ d) ∧
      roundTo 100 (line before after v₀ v₁ d) ≤ max v₀ v₁ := by
  have hleft : roundTo 100 (line before after v₀ v₁ before) = v₀ := by
    rw [line_before, roundTo_snapshot hgrid h₀]
  have hright : roundTo 100 (line before after v₀ v₁ after) = v₁ := by
    rw [line_after hlt, roundTo_snapshot hgrid h₁]
  rcases le_total v₀ v₁ with hv | hv
  · rw [min_eq_left hv, max_eq_right hv]
    exact ⟨hleft.symm.trans_le (roundTo_mono 100 (line_mono hlt hv hd.1)),
      (roundTo_mono 100 (line_mono hlt hv hd.2)).trans_eq hright⟩
  · rw [min_eq_right hv, max_eq_left hv]
    exact ⟨hright.symm.trans_le (roundTo_mono 100 (line_anti hlt hv hd.2)),
      (roundTo_mono 100 (line_anti hlt hv hd.1)).trans_eq hleft⟩

/-- Where no day raises, `_interpolate` does not. -/
theorem interpolate_eq {value : Date → ℚ} {fallback : ℚ} (hne : snaps.entries ≠ [])
    (hfirst : snaps.known.head? = some first) (hlast : snaps.known.getLast? = some last)
    (hvalue : ∀ d, valueOn snaps first last d = .ok (value d)) (dates : List Date) :
    interpolate dates snaps fallback = .ok (dates.map fun d => ⟨d.isoformat, value d⟩) := by
  have hbody : (fun d => valueOn snaps first last d >>= fun v =>
      (pure ⟨d.isoformat, v⟩ : Except Raised TrendPoint)) =
      fun d => pure ⟨d.isoformat, value d⟩ := by
    funext d
    rw [hvalue]
    rfl
  rw [interpolate, if_neg hne, hfirst, hlast]
  exact (congrArg (fun body => dates.mapM body) hbody).trans List.mapM_pure

/-- **The trend is total, follows the snapshots and goes straight from one to the next.** -/
theorem trend_interpolated (snaps : Snapshots) (fallback : ℚ) (hgrid : snaps.Hundredths) :
    ∃ value : Date → ℚ,
      (∀ dates, interpolate dates snaps fallback =
        .ok (dates.map fun d => ⟨d.isoformat, value d⟩)) ∧
      (snaps.entries = [] → ∀ d, value d = fallback) ∧
      (∀ d v, snaps.get? d = some v → value d = v) ∧
      (∀ first v, snaps.get? first = some v → (∀ k ∈ snaps.known, first ≤ k) →
        ∀ d < first, value d = v) ∧
      (∀ last v, snaps.get? last = some v → (∀ k ∈ snaps.known, k ≤ last) →
        ∀ d > last, value d = v) ∧
      (∀ d, d ∉ snaps.known → (∃ k ∈ snaps.known, k < d) → (∃ k ∈ snaps.known, d < k) →
        ∃ before after v₀ v₁, snaps.Adjacent before after ∧ before < d ∧ d < after ∧
          snaps.get? before = some v₀ ∧ snaps.get? after = some v₁ ∧
          min v₀ v₁ ≤ value d ∧ value d ≤ max v₀ v₁) ∧
      ∀ before after v₀ v₁, snaps.Adjacent before after → snaps.get? before = some v₀ →
        snaps.get? after = some v₁ →
          (v₀ ≤ v₁ → MonotoneOn value (Set.Icc before after)) ∧
          (v₁ ≤ v₀ → AntitoneOn value (Set.Icc before after)) := by
  by_cases hempty : snaps.entries = []
  · have hnone : ∀ d, d ∉ snaps.known := fun d hmem => by
      simp [Snapshots.known, hempty] at hmem
    have hget : ∀ {d v}, snaps.get? d ≠ some v := fun {d v} h => hnone d (mem_known_iff.mpr ⟨v, h⟩)
    refine ⟨fun _ => fallback, fun dates => ?_, fun _ _ => rfl, fun _ _ h => absurd h hget,
      fun _ _ h => absurd h hget, fun _ _ h => absurd h hget, fun d _ hk => ?_,
      fun _ _ _ _ hadj => absurd hadj.before_mem (hnone _)⟩
    · rw [interpolate, if_pos hempty]
      rfl
    · obtain ⟨k, hk, -⟩ := hk
      exact absurd hk (hnone k)
  · obtain ⟨first, last, hhead, hlast?, hfirst, hlast⟩ := exists_ends hempty
    choose value hvalue using exists_valueOn hfirst hlast
    have hof : ∀ {d v}, valueOn snaps first last d = .ok v → value d = v := fun {d v} h =>
      Except.ok.inj ((hvalue d).symm.trans h)
    refine ⟨value, fun dates => ?_, fun h => absurd h hempty, fun d v h => hof (valueOn_of_known h),
      fun f v h hf d hd => ?_, fun l v h hl d hd => ?_, fun d hnot hk hk' => ?_,
      fun before after v₀ v₁ hadj h₀ h₁ => ?_⟩
    · exact interpolate_eq hempty hhead hlast? hvalue dates
    · have hsame : first = f := le_antisymm (hfirst.2 f (mem_known_iff.mpr ⟨v, h⟩)) (hf first hfirst.1)
      subst hsame
      exact hof (valueOn_of_lt hfirst.2 hd h)
    · have hsame : l = last := le_antisymm (hlast.2 l (mem_known_iff.mpr ⟨v, h⟩)) (hl last hlast.1)
      subst hsame
      exact hof (valueOn_of_gt (hfirst.2 l hlast.1) hlast.2 hd h)
    · obtain ⟨k, hk, hkd⟩ := hk
      obtain ⟨k', hk', hdk⟩ := hk'
      obtain ⟨before, after, hadj, hbefore, hafter⟩ := exists_adjacent hfirst.1 hlast.1 hnot
        ((hfirst.2 k hk).trans_lt hkd).asymm (hdk.trans_le (hlast.2 k' hk')).asymm
      obtain ⟨v₀, h₀⟩ := mem_known_iff.mp hadj.before_mem
      obtain ⟨v₁, h₁⟩ := mem_known_iff.mp hadj.after_mem
      have hd : d ∈ Set.Icc before after := ⟨hbefore.le, hafter.le⟩
      refine ⟨before, after, v₀, v₁, hadj, hbefore, hafter, h₀, h₁, ?_⟩
      rw [hof (valueOn_of_adjacent hfirst.2 hlast.2 hgrid hadj h₀ h₁ hd)]
      exact roundTo_line_mem hgrid hadj.lt h₀ h₁ hd
    · have hline : ∀ d ∈ Set.Icc before after, value d = roundTo 100 (line before after v₀ v₁ d) :=
        fun d hd => hof (valueOn_of_adjacent hfirst.2 hlast.2 hgrid hadj h₀ h₁ hd)
      refine ⟨fun hv d hd d' hd' hle => ?_, fun hv d hd d' hd' hle => ?_⟩
      · rw [hline d hd, hline d' hd']
        exact roundTo_mono 100 (line_mono hadj.lt hv hle)
      · rw [hline d hd, hline d' hd']
        exact roundTo_mono 100 (line_anti hadj.lt hv hle)

/-- The ends of a leap February, with values on the 28th and on the 2nd of March. -/
def leapWeek : Snapshots where
  entries :=
    [(⟨2024, 3, 2, by decide, by decide, by decide⟩, 3 / 2),
      (⟨2024, 2, 28, by decide, by decide, by decide⟩, 1)]
  distinct := by decide

/-- A trend over the end of February in a leap year. -/
theorem leapWeek_trend : ∃ value : Date → ℚ,
    (∀ dates, interpolate dates leapWeek 0 = .ok (dates.map fun d => ⟨d.isoformat, value d⟩)) ∧
      value ⟨2024, 2, 28, by decide, by decide, by decide⟩ = 1 ∧
      MonotoneOn value (Set.Icc ⟨2024, 2, 28, by decide, by decide, by decide⟩
        ⟨2024, 3, 2, by decide, by decide, by decide⟩) := by
  have hgrid : leapWeek.Hundredths := by
    intro d v h
    obtain ⟨entry, hfind, rfl⟩ := Option.map_eq_some_iff.mp h
    rcases List.mem_cons.mp (List.mem_of_find?_eq_some hfind) with rfl | hmem
    · exact ⟨150, by norm_num⟩
    · obtain rfl := List.mem_singleton.mp hmem
      exact ⟨100, by norm_num⟩
  obtain ⟨value, htotal, -, hknown, -, -, -, hgap⟩ := trend_interpolated leapWeek 0 hgrid
  refine ⟨value, htotal, hknown _ _ rfl, ?_⟩
  exact (hgap _ _ 1 (3 / 2) ⟨by decide, by decide, by decide, by decide⟩ rfl rfl).1
    (by norm_num)

end DashboardService

end SyncBack
