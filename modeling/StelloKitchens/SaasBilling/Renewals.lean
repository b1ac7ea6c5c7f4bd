import StelloKitchens.SaasBilling.Calendar
import StelloKitchens.SaasBilling.Invoices

/-!
# Renewals by the calendar

Every period begins where the one before ended, a month or a year after it began. A date that a month
does not have counts on into the next month, and from there the renewals go on: a month is skipped,
and the day of the month is another one from then on.

## Main definitions

* `periodStart` — where a period begins, by the invoices for those before it.
* `OnTime` — the period begins in its month, on the day of the first one or on the last of the month.

## Main results

* `renewals_on_time_iff` — renewals are on time as long as every month has the day of the first one.
-/

namespace StelloKitchens.SaasBilling

/-! ### Renewals -/

/-- How many months a cycle has. -/
def BillingCycle.months : BillingCycle → ℕ
  | .monthly => 1
  | .yearly => 12

/-- Where the period begins that follows `n` others: each invoice is for a period that begins where the
one before ended. -/
def periodStart (start : Time) (cycle : BillingCycle) : ℕ → Time
  | 0 => start
  | n + 1 => addCycle (periodStart start cycle n) cycle

/-- The month so many months after this one, as a year and a month. -/
def CivilDate.monthAfter (c : CivilDate) (n : ℕ) : ℤ × ℕ :=
  (c.year + ((c.month + n) / 12 : ℕ), (c.month + n) % 12)

/-- The month so many months later has the day of this date. -/
def CivilDate.FitsAfter (c : CivilDate) (n : ℕ) : Prop :=
  c.date < daysInMonth (c.monthAfter n).1 (c.monthAfter n).2

instance (c : CivilDate) (n : ℕ) : Decidable (c.FitsAfter n) := inferInstanceAs (Decidable (_ < _))

/-- The date of a time, in UTC. -/
def dateOf (t : Time) : CivilDate := civilOfDay (t / dayMs)

/-- The period begins so many months after the first one, with none skipped, on its day of the month or
on the last day if the month is shorter, and at its time of day. -/
structure OnTime (start : Time) (cycle : BillingCycle) (n : ℕ) : Prop where
  month : ((dateOf (periodStart start cycle n)).year, (dateOf (periodStart start cycle n)).month) =
    (dateOf start).monthAfter (n * cycle.months)
  date : (dateOf (periodStart start cycle n)).date = min (dateOf start).date
    (daysInMonth ((dateOf start).monthAfter (n * cycle.months)).1
      ((dateOf start).monthAfter (n * cycle.months)).2 - 1)
  timeOfDay : periodStart start cycle n % dayMs = start % dayMs

/-- Months are counted on from a month that is so many months later. -/
theorem dayOfCivil_monthAfter (c : CivilDate) (n k : ℕ) (date : ℤ) :
    dayOfCivil (c.monthAfter n).1 ((c.monthAfter n).2 + k) date =
      dayOfCivil c.year (c.month + n + k) date := by
  have hmod : ((c.month + n) % 12 + k) % 12 = (c.month + n + k) % 12 := Nat.mod_add_mod _ _ _
  have hyear : (c.year + ((c.month + n) / 12 : ℕ) : ℤ) + (((c.month + n) % 12 + k) / 12 : ℕ) =
      c.year + ((c.month + n + k) / 12 : ℕ) := by
    have hdiv : (c.month + n) / 12 + ((c.month + n) % 12 + k) / 12 = (c.month + n + k) / 12 := by
      omega
    rw [← hdiv]
    push_cast
    ring
  rw [dayOfCivil, dayOfCivil, CivilDate.monthAfter, hmod, hyear]

/-- A month that has the day has it as a date. -/
theorem civilOfDay_after {c : CivilDate} (hdate : 0 ≤ c.date) {n : ℕ} (h : c.FitsAfter n) :
    civilOfDay (dayOfCivil c.year (c.month + n) c.date) =
      ⟨(c.monthAfter n).1, (c.monthAfter n).2, c.date⟩ := by
  have hday := dayOfCivil_monthAfter c n 0 c.date
  rw [add_zero, add_zero] at hday
  rw [← hday]
  exact civilOfDay_dayOfCivil (Nat.mod_lt _ (by omega)) hdate h

/-- A cycle goes on by its months, whichever of the two it is. -/
theorem addCycle_eq (t : Time) (cycle : BillingCycle) :
    addCycle t cycle = dayOfCivil (dateOf t).year ((dateOf t).month + cycle.months) (dateOf t).date *
      dayMs + t % dayMs := by
  cases cycle with
  | monthly => rfl
  | yearly =>
    have hyear : ∀ (y : ℤ) (m : ℕ) (date : ℤ), dayOfCivil (y + 1) m date = dayOfCivil y (m + 12) date := by
      intro y m date
      have hdiv : (m + 12) / 12 = m / 12 + 1 := by omega
      have hyear' : y + ((m / 12 + 1 : ℕ) : ℤ) = y + 1 + (m / 12 : ℕ) := by
        push_cast
        ring
      rw [dayOfCivil, dayOfCivil, hdiv, Nat.add_mod_right, hyear']
    change dayOfCivil ((dateOf t).year + 1) (dateOf t).month (dateOf t).date * dayMs + t % dayMs = _
    rw [hyear]
    rfl

theorem dateOf_add (day : ℤ) {r : ℤ} (hr : 0 ≤ r) (hlt : r < dayMs) :
    dateOf (day * dayMs + r) = civilOfDay day ∧ (day * dayMs + r) % dayMs = r := by
  have hday : (day * dayMs + r) / dayMs = day := by
    rw [mul_comm, Int.mul_add_ediv_left _ _ (by decide), Int.ediv_eq_zero_of_lt hr hlt, add_zero]
  refine ⟨by rw [dateOf, hday], ?_⟩
  rw [mul_comm, Int.mul_add_emod_self_left, Int.emod_eq_of_lt hr hlt]

section Renewals

variable {start : Time} {cycle : BillingCycle}

/-- A period that follows months with the day of the first one begins on that day, or counts on. -/
theorem periodStart_eq {n : ℕ}
    (h : ∀ k < n, (dateOf start).FitsAfter (k * cycle.months)) :
    periodStart start cycle n = dayOfCivil (dateOf start).year
      ((dateOf start).month + n * cycle.months) (dateOf start).date * dayMs + start % dayMs := by
  induction n with
  | zero =>
    rw [zero_mul, add_zero, dateOf, dayOfCivil_civilOfDay, periodStart, mul_comm]
    exact (Int.mul_ediv_add_emod start dayMs).symm
  | succ n ih =>
    have hdate : 0 ≤ (dateOf start).date := (civilOfDay_spec _).2.1
    have hprev := ih fun k hk => h k (hk.trans (Nat.lt_succ_self n))
    obtain ⟨hdateOf, hmod⟩ := dateOf_add (dayOfCivil (dateOf start).year
      ((dateOf start).month + n * cycle.months) (dateOf start).date)
      (Int.emod_nonneg start (by decide : dayMs ≠ 0)) (Int.emod_lt_of_pos _ (by decide))
    rw [← hprev, civilOfDay_after hdate (h n (Nat.lt_succ_self n))] at hdateOf
    rw [← hprev] at hmod
    rw [periodStart, addCycle_eq, hdateOf, hmod]
    dsimp only
    rw [dayOfCivil_monthAfter, add_assoc, ← Nat.succ_mul]

/-- Renewals are on time as long as every month that a period begins in has the day of the first one. -/
theorem renewals_on_time_iff (start : Time) (cycle : BillingCycle) (n : ℕ) :
    (∀ k ≤ n, OnTime start cycle k) ↔ ∀ k ≤ n, (dateOf start).FitsAfter (k * cycle.months) := by
  have hdate : 0 ≤ (dateOf start).date := (civilOfDay_spec _).2.1
  have hr : 0 ≤ start % dayMs := Int.emod_nonneg _ (by decide)
  have hlt : start % dayMs < dayMs := Int.emod_lt_of_pos _ (by decide)
  constructor
  · intro h k
    induction k using Nat.strong_induction_on with
    | _ k ih =>
      intro hk
      have hstart := @periodStart_eq start cycle _ fun j hj => ih j hj (hj.le.trans hk)
      obtain ⟨hin, hday, -⟩ := h k hk
      obtain ⟨hyear, hmonth⟩ := Prod.mk.inj hin
      have hfound := dayOfCivil_civilOfDay (periodStart start cycle k / dayMs)
      have hdays : periodStart start cycle k / dayMs = dayOfCivil (dateOf start).year
          ((dateOf start).month + k * cycle.months) (dateOf start).date := by
        rw [hstart, mul_comm, Int.mul_add_ediv_left _ _ (by decide), Int.ediv_eq_zero_of_lt hr hlt,
          add_zero]
      rw [← dateOf, hyear, hmonth, hdays] at hfound
      have hafter := dayOfCivil_monthAfter (dateOf start) (k * cycle.months) 0
        (dateOf (periodStart start cycle k)).date
      rw [add_zero, add_zero] at hafter
      replace hafter := hfound.symm.trans hafter
      rw [dayOfCivil, dayOfCivil, add_right_inj] at hafter
      rw [← hafter] at hday
      exact Int.lt_of_le_sub_one (min_eq_left_iff.mp hday.symm)
  · intro h k hk
    have hstart := @periodStart_eq start cycle _ fun j hj => h j (hj.le.trans hk)
    obtain ⟨hdateOf, hmod⟩ := dateOf_add (dayOfCivil (dateOf start).year
      ((dateOf start).month + k * cycle.months) (dateOf start).date) hr hlt
    rw [← hstart, civilOfDay_after hdate (h k hk)] at hdateOf
    refine ⟨by rw [hdateOf], ?_, by rw [hstart]; exact hmod⟩
    rw [hdateOf]
    exact (min_eq_left (Int.le_sub_one_of_lt (h k hk))).symm

end Renewals

/-- Noon on 31 January 2026. -/
def endOfJanuary : Time := 1769860800000

/-- The first renewal after the end of January is in March. -/
theorem not_renewals_on_time : ¬∀ (start : Time) (cycle : BillingCycle) (n : ℕ),
    OnTime start cycle n := by
  intro h
  have hmonth := (h endOfJanuary .monthly 1).month
  have hmarch : ((dateOf (periodStart endOfJanuary .monthly 1)).year,
      (dateOf (periodStart endOfJanuary .monthly 1)).month) ≠
      (dateOf endOfJanuary).monthAfter (1 * BillingCycle.monthly.months) := by
    decide +kernel
  exact hmarch hmonth

end StelloKitchens.SaasBilling
