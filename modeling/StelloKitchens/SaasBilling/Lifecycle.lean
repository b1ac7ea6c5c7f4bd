import StelloKitchens.Shared.BillNumber

/-!
# The life of a subscription

A subscription is on trial, active, past due, suspended or cancelled, and moves between these by
events. Its periods follow one another by the calendar, and invoices of a fiscal year are numbered.

## Main definitions

* `nextSubscriptionStatus` — the state machine.
* `addCycle`, `financialYear` — periods and fiscal years by the calendar.
* `saasInvoiceAmounts` — what an invoice comes to.

## Main results

* `dayOfCivil_civilOfDay` — a day is found again by its date.
-/

namespace StelloKitchens.SaasBilling

/-! ### The state machine -/

inductive SubscriptionStatus
  | trial
  | active
  | pastDue
  | suspended
  | cancelled
  deriving DecidableEq

inductive SubscriptionEvent
  | paymentSucceeded
  | paymentFailed
  | trialExpired
  | graceExpired
  | cancel
  | periodEnded
  | adminSuspend
  | adminReactivate
  deriving DecidableEq

/-- The status after an event, if it can be applied. -/
def nextSubscriptionStatus : SubscriptionStatus → SubscriptionEvent → Option SubscriptionStatus
  | _, .paymentSucceeded => some .active
  | .trial, .trialExpired => some .suspended
  | .trial, .cancel => some .cancelled
  | .trial, .adminSuspend => some .suspended
  | .trial, .adminReactivate => some .active
  | .active, .paymentFailed => some .pastDue
  | .active, .cancel => some .active
  | .active, .periodEnded => some .cancelled
  | .active, .adminSuspend => some .suspended
  | .pastDue, .paymentFailed => some .pastDue
  | .pastDue, .graceExpired => some .suspended
  | .pastDue, .cancel => some .cancelled
  | .pastDue, .adminSuspend => some .suspended
  | .pastDue, .adminReactivate => some .active
  | .suspended, .cancel => some .cancelled
  | .suspended, .adminReactivate => some .active
  | .cancelled, .adminReactivate => some .active
  | _, _ => none

def canTransition (status : SubscriptionStatus) (event : SubscriptionEvent) : Bool :=
  (nextSubscriptionStatus status event).isSome

inductive TenantStatus
  | trial
  | active
  | suspended
  deriving DecidableEq

def tenantStatusFor : SubscriptionStatus → TenantStatus
  | .trial => .trial
  | .active => .active
  | .pastDue => .active
  | .suspended => .suspended
  | .cancelled => .suspended

/-! ### The calendar -/

def dayMs : ℤ := 86400000

/-- The days of a year before a month, months counted from 0. -/
def daysBefore (leap : Bool) (month : ℕ) : ℤ :=
  [0, 31, 59, 90, 120, 151, 181, 212, 243, 273, 304, 334].getD month 365 +
    if leap ∧ 2 ≤ month then 1 else 0

/-- The month that a day of a year falls in. -/
def monthOfDay (leap : Bool) (day : ℤ) : ℕ :=
  ((List.range 12).filter fun month => daysBefore leap month ≤ day).length - 1

structure CivilDate where
  year : ℤ
  month : ℕ
  /-- Counted from 0. -/
  date : ℤ
  deriving DecidableEq

def civilOfDay (d : ℤ) : CivilDate :=
  let year := yearOfDay d
  let day := d - dayFromYear year
  let month := monthOfDay (isLeapYear year) day
  ⟨year, month, day - daysBefore (isLeapYear year) month⟩

/-- The number of a day; dates past the end of a month count on into the next. -/
def dayOfCivil (year : ℤ) (month : ℕ) (date : ℤ) : ℤ :=
  let year' := year + (month / 12 : ℕ)
  dayFromYear year' + daysBefore (isLeapYear year') (month % 12) + date

theorem monthOfDay_lt (leap : Bool) (day : ℤ) : monthOfDay leap day < 12 := by
  have hle : ((List.range 12).filter fun month => daysBefore leap month ≤ day).length ≤ 12 :=
    List.length_filter_le _ _
  unfold monthOfDay
  omega

/-- A day is found again by its date. -/
theorem dayOfCivil_civilOfDay (d : ℤ) :
    dayOfCivil (civilOfDay d).year (civilOfDay d).month (civilOfDay d).date = d := by
  have hmonth : (civilOfDay d).month < 12 := monthOfDay_lt _ _
  rw [dayOfCivil, Nat.div_eq_of_lt hmonth, Nat.mod_eq_of_lt hmonth, Nat.cast_zero, add_zero]
  simp only [civilOfDay]
  ring

inductive BillingCycle
  | monthly
  | yearly
  deriving DecidableEq

/-- The same time of day, a month or a year later. -/
def addCycle (start : Time) (cycle : BillingCycle) : Time :=
  let c := civilOfDay (start / dayMs)
  let day := match cycle with
    | .monthly => dayOfCivil c.year (c.month + 1) c.date
    | .yearly => dayOfCivil (c.year + 1) c.month c.date
  day * dayMs + start % dayMs

/-- The Indian fiscal year of an instant, as in `2026-27`. -/
def financialYear (at_ : Time) : String :=
  let c := civilOfDay (at_ / dayMs)
  let y := if 3 ≤ c.month then c.year else c.year - 1
  toString y ++ "-" ++ padStart 2 (toString ((y + 1).tmod 100))

/-! ### Amounts -/

def paymentGraceDays : ℤ := 7

/-- GST in basis points. -/
def saasGstBps : ℤ := 1800

/-- Amounts in paise. -/
structure InvoiceAmounts where
  subtotal : ℤ
  taxAmount : ℤ
  total : ℤ
  deriving DecidableEq

/-- With GST, rounded to the paisa. -/
def saasInvoiceAmounts (subtotal : ℤ) : InvoiceAmounts :=
  let taxAmount := (subtotal * saasGstBps + 5000) / 10000
  ⟨subtotal, taxAmount, subtotal + taxAmount⟩

end StelloKitchens.SaasBilling
