import StelloKitchens.Lib.Binary64

/-!
# Money in integer paise

The shared money module: rupee amounts are doubles, and every subtotal, discount and total is
taken over whole paise, which doubles add exactly. Only the tax leaves the whole numbers: the
tax of a line is its paise times a percentage, accumulated line by line in floating point and
rounded once at the end.

## Main definitions

* `toPaise`, `fromPaise`, `lineTotalPaise` — between rupees and paise.
* `computeOrderTotals` — the figures of an order from its lines and a discount.

## Main results

* `toPaise_fromPaise` — whole paise survive the way through rupees.
-/

namespace StelloKitchens

/-- Rupees to integer paise, rounded to the nearest paisa. -/
def toPaise (rupees : Binary64) : Binary64 := (rupees * 100).nearestInt

/-- Integer paise to rupees with two decimals. -/
def fromPaise (paise : Binary64) : Binary64 := paise.nearestInt / 100

/-- Unit price in rupees times quantity, in paise. -/
def lineTotalPaise (unitPriceRupees quantity : Binary64) : Binary64 :=
  toPaise unitPriceRupees * quantity

/-- A line as the money math sees it: its total in paise and its tax rate in percent. -/
structure MoneyLine where
  lineTotalPaise : Binary64
  taxRatePercent : Binary64
  deriving DecidableEq

/-- The figures of an order, in rupees. -/
structure OrderTotals where
  subtotal : Binary64
  discountAmount : Binary64
  taxAmount : Binary64
  total : Binary64
  deriving DecidableEq, Inhabited

/-- The sum of the line totals, in the order of the lines. -/
def subtotalPaise (lines : List MoneyLine) : Binary64 :=
  lines.foldl (fun s l => s + l.lineTotalPaise) 0

/-- The sum of the line taxes before discount and rounding, in the order of the lines. -/
def rawTaxPaise (lines : List MoneyLine) : Binary64 :=
  lines.foldl (fun s l => s + l.lineTotalPaise * l.taxRatePercent / 100) 0

/-- The discount in paise, kept between nothing and the subtotal. -/
def discountPaise (subtotal discountRupees : Binary64) : Binary64 :=
  min (max 0 (toPaise discountRupees)) subtotal

/-- The tax in paise: the raw tax scaled to the taxable part, rounded once. -/
def taxPaise (rawTax taxable subtotal : Binary64) : Binary64 :=
  if 0 < subtotal then (rawTax * taxable / subtotal).nearestInt else 0

/-- The totals of an order: the discount is taken off before tax and spread over the lines in
proportion, and only the tax carries a rounding. -/
def computeOrderTotals (lines : List MoneyLine) (discountRupees : Binary64) : OrderTotals :=
  let subtotal := subtotalPaise lines
  let discount := discountPaise subtotal discountRupees
  let taxable := subtotal - discount
  let tax := taxPaise (rawTaxPaise lines) taxable subtotal
  { subtotal := fromPaise subtotal
    discountAmount := fromPaise discount
    taxAmount := fromPaise tax
    total := fromPaise (taxable + tax) }

/-! ### Amounts that are not negative -/

theorem zero_le_hundred : (0 : Binary64) ≤ 100 :=
  Binary64.zero_le_ofRat (by norm_num)

theorem zero_le_toPaise {rupees : Binary64} (h : 0 ≤ rupees) : 0 ≤ toPaise rupees :=
  Binary64.zero_le_nearestInt (Binary64.zero_le_mul h zero_le_hundred)

theorem zero_le_fromPaise {paise : Binary64} (h : 0 ≤ paise) : 0 ≤ fromPaise paise :=
  Binary64.zero_le_div (Binary64.zero_le_nearestInt h) zero_le_hundred

theorem zero_le_subtotalPaise {lines : List MoneyLine} (h : ∀ l ∈ lines, 0 ≤ l.lineTotalPaise) :
    0 ≤ subtotalPaise lines := by
  refine List.foldlRecOn lines _ (motive := fun s => 0 ≤ s) le_rfl fun s hs l hl => ?_
  exact Binary64.zero_le_add hs (h l hl)

theorem zero_le_rawTaxPaise {lines : List MoneyLine} (h : ∀ l ∈ lines, 0 ≤ l.lineTotalPaise)
    (ht : ∀ l ∈ lines, 0 ≤ l.taxRatePercent) : 0 ≤ rawTaxPaise lines := by
  refine List.foldlRecOn lines _ (motive := fun s => 0 ≤ s) le_rfl fun s hs l hl => ?_
  exact Binary64.zero_le_add hs
    (Binary64.zero_le_div (Binary64.zero_le_mul (h l hl) (ht l hl)) zero_le_hundred)

theorem discountPaise_le (subtotal discount : Binary64) :
    discountPaise subtotal discount ≤ subtotal := min_le_right _ _

/-- Lines that are not negative have figures that are not negative. -/
theorem zero_le_computeOrderTotals {lines : List MoneyLine} (discount : Binary64)
    (h : ∀ l ∈ lines, 0 ≤ l.lineTotalPaise) (ht : ∀ l ∈ lines, 0 ≤ l.taxRatePercent) :
    0 ≤ (computeOrderTotals lines discount).subtotal ∧
      0 ≤ (computeOrderTotals lines discount).taxAmount ∧
      0 ≤ (computeOrderTotals lines discount).total := by
  have hsub := zero_le_subtotalPaise h
  have htaxable := Binary64.zero_le_sub (discountPaise_le (subtotalPaise lines) discount)
  have htax : 0 ≤ taxPaise (rawTaxPaise lines)
      (subtotalPaise lines - discountPaise (subtotalPaise lines) discount)
      (subtotalPaise lines) := by
    unfold taxPaise
    split
    · exact Binary64.zero_le_nearestInt (Binary64.zero_le_div
        (Binary64.zero_le_mul (zero_le_rawTaxPaise h ht) htaxable) hsub)
    · exact le_rfl
  exact ⟨zero_le_fromPaise hsub, zero_le_fromPaise htax,
    zero_le_fromPaise (Binary64.zero_le_add htaxable htax)⟩

/-! ### Whole paise and rupees -/

theorem val_hundred : (100 : Binary64).val = 100 := by
  simpa using Binary64.val_ofNat_of_le (n := 100) (by norm_num)

theorem nearestInt_of_int {p : Binary64} {m : ℤ} (hp : p.val = m) : p.nearestInt = p := by
  apply Binary64.ext
  have hfloor : ⌊p.val + 1 / 2⌋ = m := by
    rw [hp, Int.floor_eq_iff]
    constructor <;> linarith
  rw [Binary64.nearestInt, hfloor, ← hp, Binary64.ofRat_val]

theorem fromPaise_of_int {p : Binary64} {m : ℤ} (hp : p.val = m) : fromPaise p = p / 100 := by
  rw [fromPaise, nearestInt_of_int hp]

@[simp] theorem fromPaise_zero : fromPaise 0 = 0 := by
  rw [fromPaise_of_int (m := 0) (by simp)]
  apply Binary64.ext
  rw [Binary64.val_div, Binary64.val_zero, zero_div, Binary64.round_zero]

@[simp] theorem toPaise_zero : toPaise 0 = 0 := by
  have h : (0 * 100 : Binary64) = 0 := by
    apply Binary64.ext
    rw [Binary64.val_mul, Binary64.val_zero, zero_mul, Binary64.round_zero]
  rw [toPaise, h]
  exact nearestInt_of_int (m := 0) (by simp)

/-- A whole number of paise is recovered from its rupees. -/
theorem toPaise_fromPaise {p : Binary64} {m : ℤ} (hp : p.val = m) (hm : |m| ≤ 2 ^ 50) :
    toPaise (fromPaise p) = p := by
  have hmq : |(m : ℚ)| ≤ 2 ^ 50 := by exact_mod_cast hm
  have hdiv := Binary64.abs_round_sub_le (m / 100 : ℚ)
  have hmul := Binary64.abs_round_sub_le (Binary64.round (m / 100 : ℚ) * 100)
  set r := Binary64.round (m / 100 : ℚ) with hr
  have hval : (fromPaise p * 100).val = Binary64.round (r * 100) := by
    rw [Binary64.val_mul, fromPaise_of_int hp, Binary64.val_div, hp, val_hundred]
  -- the division and the multiplication each move the number by at most its unit roundoff
  have h100 : |r * 100 - m| ≤ Binary64.unitRoundoff * |(m : ℚ)| := by
    have hfactor : r * 100 - m = (r - m / 100) * 100 := by ring
    rw [hfactor, abs_mul, abs_of_pos (by norm_num : (0 : ℚ) < 100)]
    rw [abs_div, abs_of_pos (by norm_num : (0 : ℚ) < 100)] at hdiv
    linarith
  have hsize : |r * 100| ≤ 2 * |(m : ℚ)| := by
    have := abs_sub_abs_le_abs_sub (r * 100) (m : ℚ)
    have hu : Binary64.unitRoundoff ≤ 1 := by norm_num [Binary64.unitRoundoff]
    have := mul_le_mul_of_nonneg_right hu (abs_nonneg (m : ℚ))
    linarith
  have hfar : |Binary64.round (r * 100) - m| ≤ 3 * Binary64.unitRoundoff * 2 ^ 50 := by
    have htri := abs_sub_le (Binary64.round (r * 100)) (r * 100) (m : ℚ)
    have hu := Binary64.unitRoundoff_pos.le
    have h₁ := mul_le_mul_of_nonneg_left hsize hu
    have h₂ := mul_le_mul_of_nonneg_left hmq hu
    linarith
  have hnear : |Binary64.round (r * 100) - m| < 1 / 2 :=
    lt_of_le_of_lt hfar (by norm_num [Binary64.unitRoundoff])
  apply Binary64.ext
  rw [hp, toPaise]
  apply Binary64.val_nearestInt (hm.trans (by norm_num))
  · rw [hval]
    linarith [(abs_lt.mp hnear).1]
  · rw [hval]
    linarith [(abs_lt.mp hnear).2]

end StelloKitchens
