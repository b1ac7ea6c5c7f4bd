import Mathlib.Data.Int.ConditionallyCompleteOrder
import StelloKitchens.SaasBilling.Lifecycle

/-!
# Days and dates

The date of a day is one that its month has, and such a date is that of its day.

## Main definitions

* `daysInMonth` — how many days a month has.

## Main results

* `civilOfDay_dayOfCivil` — a date that its month has is that of its day.
* `civilOfDay_spec` — the date of a day is one that its month has.
-/

namespace StelloKitchens.SaasBilling

/-- How many days a month has, months counted from 0. -/
def daysInMonth (year : ℤ) (month : ℕ) : ℤ :=
  daysBefore (isLeapYear year) (month + 1) - daysBefore (isLeapYear year) month

theorem dayFromYear_succ (y : ℤ) :
    dayFromYear (y + 1) = dayFromYear y + daysBefore (isLeapYear y) 12 := by
  have hdays : daysBefore (isLeapYear y) 12 = 365 + if isLeapYear y then 1 else 0 := by
    cases isLeapYear y <;> rfl
  rw [hdays, isLeapYear]
  unfold dayFromYear
  by_cases h : y % 4 = 0 ∧ (y % 100 ≠ 0 ∨ y % 400 = 0)
  · rw [if_pos (decide_eq_true h)]
    omega
  · rw [if_neg fun h' => h (of_decide_eq_true h')]
    omega

theorem daysBefore_twelve_pos (leap : Bool) : 0 < daysBefore leap 12 := by
  cases leap <;> decide

theorem strictMono_dayFromYear : StrictMono dayFromYear :=
  strictMono_int_of_lt_succ fun y => by
    rw [dayFromYear_succ]
    have h := daysBefore_twelve_pos (isLeapYear y)
    omega

/-- The year of a day is the one whose days contain it, and no other. -/
theorem yearOfDay_eq {d y : ℤ} (hle : dayFromYear y ≤ d) (hlt : d < dayFromYear (y + 1)) :
    yearOfDay d = y := by
  obtain ⟨hle', hlt'⟩ := yearOfDay_spec d
  have h₁ := strictMono_dayFromYear.lt_iff_lt.mp (hle.trans_lt hlt')
  have h₂ := strictMono_dayFromYear.lt_iff_lt.mp (hle'.trans_lt hlt)
  omega

theorem daysBefore_lt : ∀ leap : Bool, ∀ m < 13, ∀ m' < 13, m < m' →
    daysBefore leap m < daysBefore leap m' := by
  decide

theorem filter_range_le : ∀ month < 12,
    (List.range 12).filter (fun m => m ≤ month) = List.range (month + 1) := by
  decide

/-- The month of a day is the one whose days contain it. -/
theorem monthOfDay_eq {leap : Bool} {month : ℕ} (hmonth : month < 12) {day : ℤ}
    (hle : daysBefore leap month ≤ day) (hlt : day < daysBefore leap (month + 1)) :
    monthOfDay leap day = month := by
  have hcongr : ∀ m ∈ List.range 12, decide (daysBefore leap m ≤ day) = decide (m ≤ month) := by
    intro m hm
    rw [List.mem_range] at hm
    rw [decide_eq_decide]
    constructor
    · intro hday
      by_contra hlater
      have hnext : month + 1 ≤ m := not_le.mp hlater
      rcases hnext.eq_or_lt with rfl | hlater'
      · omega
      · have := daysBefore_lt leap (month + 1) (by omega) m (by omega) hlater'
        omega
    · intro hearlier
      rcases hearlier.eq_or_lt with rfl | hearlier'
      · exact hle
      · have := daysBefore_lt leap m (by omega) month (by omega) hearlier'
        omega
  rw [monthOfDay, List.filter_congr hcongr, filter_range_le month hmonth, List.length_range]
  rfl

/-- A number between two steps of a staircase is on one of the steps between. -/
theorem exists_step {f : ℕ → ℤ} {x : ℤ} (hle : f 0 ≤ x) {n : ℕ} (hlt : x < f n) :
    ∃ m < n, f m ≤ x ∧ x < f (m + 1) := by
  induction n with
  | zero => omega
  | succ n ih =>
    by_cases hn : x < f n
    · obtain ⟨m, hm, hstep⟩ := ih hn
      exact ⟨m, by omega, hstep⟩
    · exact ⟨n, by omega, not_lt.mp hn, hlt⟩

theorem daysBefore_zero (leap : Bool) : daysBefore leap 0 = 0 := by
  cases leap <;> rfl

theorem daysBefore_nonneg (leap : Bool) {month : ℕ} (hmonth : month < 12) :
    0 ≤ daysBefore leap month := by
  rcases Nat.eq_zero_or_pos month with rfl | hpos
  · rw [daysBefore_zero]
  · have h := daysBefore_lt leap 0 (by omega) month (by omega) hpos
    rw [daysBefore_zero] at h
    exact h.le

/-- A date that its month has is that of its day. -/
theorem civilOfDay_dayOfCivil {year : ℤ} {month : ℕ} {date : ℤ} (hmonth : month < 12)
    (hdate : 0 ≤ date) (hlt : date < daysInMonth year month) :
    civilOfDay (dayOfCivil year month date) = ⟨year, month, date⟩ := by
  unfold daysInMonth at hlt
  have hfound : monthOfDay (isLeapYear year) (daysBefore (isLeapYear year) month + date) = month :=
    monthOfDay_eq hmonth (by omega) (by omega)
  have hday : dayOfCivil year month date =
      dayFromYear year + (daysBefore (isLeapYear year) month + date) := by
    rw [dayOfCivil, Nat.div_eq_of_lt hmonth, Nat.mod_eq_of_lt hmonth, Nat.cast_zero, add_zero]
    ring
  have hyear : yearOfDay (dayOfCivil year month date) = year := by
    rw [hday]
    have hfrom := daysBefore_nonneg (isLeapYear year) hmonth
    refine yearOfDay_eq (by omega) ?_
    rw [dayFromYear_succ]
    have hnext : month + 1 ≤ 12 := hmonth
    rcases hnext.eq_or_lt with htwelve | hless
    · rw [← htwelve]
      omega
    · have := daysBefore_lt (isLeapYear year) (month + 1) (by omega) 12 (by omega) hless
      omega
  have hsub : dayOfCivil year month date - dayFromYear year =
      daysBefore (isLeapYear year) month + date := by
    rw [hday]
    ring
  unfold civilOfDay
  dsimp only
  rw [hyear, hsub, hfound, add_sub_cancel_left]

/-- The date of a day is one that its month has. -/
theorem civilOfDay_spec (d : ℤ) : (civilOfDay d).month < 12 ∧ 0 ≤ (civilOfDay d).date ∧
    (civilOfDay d).date < daysInMonth (civilOfDay d).year (civilOfDay d).month := by
  obtain ⟨hle, hlt⟩ := yearOfDay_spec d
  rw [dayFromYear_succ] at hlt
  set leap := isLeapYear (yearOfDay d) with hleap
  have hzero : daysBefore leap 0 ≤ d - dayFromYear (yearOfDay d) := by
    rw [daysBefore_zero]
    omega
  obtain ⟨month, hmonth, hfrom, hto⟩ := exists_step hzero (by omega :
    d - dayFromYear (yearOfDay d) < daysBefore leap 12)
  have hcivil : civilOfDay d =
      ⟨yearOfDay d, month, d - dayFromYear (yearOfDay d) - daysBefore leap month⟩ := by
    unfold civilOfDay
    dsimp only
    rw [← hleap, monthOfDay_eq hmonth hfrom hto]
  rw [hcivil]
  refine ⟨hmonth, ?_, ?_⟩
  · exact sub_nonneg.mpr hfrom
  · rw [daysInMonth, ← hleap]
    exact sub_lt_sub_right hto _

end StelloKitchens.SaasBilling
