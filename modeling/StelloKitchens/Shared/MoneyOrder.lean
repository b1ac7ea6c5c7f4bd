import Mathlib.Algebra.BigOperators.Ring.Finset
import StelloKitchens.Lib.RoundingError
import StelloKitchens.Shared.Money

/-!
# Totals and the order of the lines

Two parties that add up the same lines in different orders get the same subtotal, as whole paise
are added exactly. The tax before rounding is not a whole number, and each order of the lines
has its own rounding errors; the two agree when the exact tax stays clear of half a paisa by more
than these errors.

## Main definitions

* `TaxClear` — the exact tax is farther from every half paisa than all rounding errors.

## Main results

* `subtotalPaise_perm` — the subtotal does not depend on the order of the lines.
* `computeOrderTotals_perm` — neither do the figures when the tax is clear of half a paisa.
-/

namespace StelloKitchens

/-- The line totals are whole paise and add up to at most `2⁵³`. -/
structure WholePaiseLines (lines : List MoneyLine) : Prop where
  isInt : ∀ l ∈ lines, ∃ n : ℤ, l.lineTotalPaise.val = n
  sum_le : (lines.map fun l => |l.lineTotalPaise.val|).sum ≤ 2 ^ 53

theorem WholePaiseLines.val_subtotalPaise {lines : List MoneyLine} (h : WholePaiseLines lines) :
    (subtotalPaise lines).val = (lines.map fun l => l.lineTotalPaise.val).sum := by
  have hfloor : ∀ l ∈ lines, l.lineTotalPaise.val = ⌊l.lineTotalPaise.val⌋ := by
    intro l hl
    obtain ⟨n, hn⟩ := h.isInt l hl
    rw [hn, Int.floor_intCast]
  have hsum : (lines.map fun l => |⌊l.lineTotalPaise.val⌋|).sum ≤ 2 ^ 53 := by
    have hcast : (((lines.map fun l => |⌊l.lineTotalPaise.val⌋|).sum : ℤ) : ℚ) =
        (lines.map fun l => |l.lineTotalPaise.val|).sum := by
      rw [Int.cast_list_sum, List.map_map]
      refine congrArg List.sum (List.map_congr_left fun l hl => ?_)
      rw [Function.comp_apply, Int.cast_abs, ← hfloor l hl]
    have := hcast.trans_le h.sum_le
    exact_mod_cast this
  have hval := Binary64.val_foldl_add_intCast (fun l : MoneyLine => l.lineTotalPaise)
    (fun l => ⌊l.lineTotalPaise.val⌋) lines hfloor hsum
  rw [subtotalPaise, hval, Int.cast_list_sum, List.map_map]
  exact congrArg List.sum (List.map_congr_left fun l hl => (hfloor l hl).symm)

theorem WholePaiseLines.perm {lines lines' : List MoneyLine} (h : WholePaiseLines lines)
    (hperm : lines.Perm lines') : WholePaiseLines lines' :=
  ⟨fun l hl => h.isInt l (hperm.mem_iff.mpr hl),
    ((hperm.map _).sum_eq.symm.trans_le h.sum_le)⟩

/-- The subtotal does not depend on the order of the lines. -/
theorem subtotalPaise_perm {lines lines' : List MoneyLine} (h : WholePaiseLines lines)
    (hperm : lines.Perm lines') : subtotalPaise lines = subtotalPaise lines' := by
  apply Binary64.ext
  rw [h.val_subtotalPaise, (h.perm hperm).val_subtotalPaise, (hperm.map _).sum_eq]

/-! ### The tax -/

/-- The exact tax of a line in paise. -/
def MoneyLine.exactTax (l : MoneyLine) : ℚ := l.lineTotalPaise.val * l.taxRatePercent.val / 100

/-- The tax of the taxable part before rounding, taken exactly. -/
def exactScaledTax (lines : List MoneyLine) (taxable subtotal : Binary64) : ℚ :=
  (lines.map MoneyLine.exactTax).sum * taxable.val / subtotal.val

/-- What all roundings of the computation together can move the tax by. -/
def taxErrorBound (lines : List MoneyLine) (taxable subtotal : Binary64) : ℚ :=
  Binary64.growth (lines.length + 4) *
    ((lines.map fun l => |l.exactTax|).sum * |taxable.val| / |subtotal.val|)

/-- The exact tax is farther from every half paisa than all rounding errors. -/
def TaxClear (lines : List MoneyLine) (discountRupees : Binary64) : Prop :=
  let subtotal := subtotalPaise lines
  let taxable := subtotal - discountPaise subtotal discountRupees
  ∀ k : ℤ, taxErrorBound lines taxable subtotal < |exactScaledTax lines taxable subtotal - (k + 1 / 2)|

theorem approx_lineTax (l : MoneyLine) :
    Binary64.Approx 2 |l.exactTax| (l.lineTotalPaise * l.taxRatePercent / 100) l.exactTax := by
  have h := ((Binary64.approx_self l.lineTotalPaise).mul l.taxRatePercent).div 100
  rw [val_hundred] at h
  have hweight : |l.lineTotalPaise.val| * |l.taxRatePercent.val| / |(100 : ℚ)| = |l.exactTax| := by
    rw [MoneyLine.exactTax, abs_div, abs_mul]
  rwa [hweight] at h

/-- The computed tax is within the error bound of the exact one. -/
theorem abs_scaledTax_sub_le (lines : List MoneyLine) (taxable subtotal : Binary64) :
    |(rawTaxPaise lines * taxable / subtotal).val - exactScaledTax lines taxable subtotal| ≤
      taxErrorBound lines taxable subtotal := by
  have hraw := Binary64.approx_foldl_add
    (fun l : MoneyLine => l.lineTotalPaise * l.taxRatePercent / 100) MoneyLine.exactTax lines
    fun l _ => approx_lineTax l
  have h := ((hraw.mul taxable).div subtotal).error
  have hcount : 2 + lines.length + 1 + 1 = lines.length + 4 := by omega
  rwa [hcount] at h

theorem taxErrorBound_perm {lines lines' : List MoneyLine} (h : lines.Perm lines')
    (taxable subtotal : Binary64) :
    taxErrorBound lines taxable subtotal = taxErrorBound lines' taxable subtotal := by
  rw [taxErrorBound, taxErrorBound, h.length_eq, (h.map _).sum_eq]

theorem exactScaledTax_perm {lines lines' : List MoneyLine} (h : lines.Perm lines')
    (taxable subtotal : Binary64) :
    exactScaledTax lines taxable subtotal = exactScaledTax lines' taxable subtotal := by
  rw [exactScaledTax, exactScaledTax, (h.map _).sum_eq]

/-- The figures do not depend on the order of the lines when the tax is clear of half a paisa. -/
theorem computeOrderTotals_perm {lines lines' : List MoneyLine} (h : WholePaiseLines lines)
    (hperm : lines.Perm lines') {discount : Binary64} (hclear : TaxClear lines discount) :
    computeOrderTotals lines discount = computeOrderTotals lines' discount := by
  have hsub := subtotalPaise_perm h hperm
  have htax : taxPaise (rawTaxPaise lines)
      (subtotalPaise lines - discountPaise (subtotalPaise lines) discount) (subtotalPaise lines) =
    taxPaise (rawTaxPaise lines')
      (subtotalPaise lines - discountPaise (subtotalPaise lines) discount)
      (subtotalPaise lines) := by
    unfold taxPaise
    split
    · refine Binary64.nearestInt_eq_of_near (abs_scaledTax_sub_le _ _ _) ?_ hclear
      rw [exactScaledTax_perm hperm, taxErrorBound_perm hperm]
      exact abs_scaledTax_sub_le _ _ _
    · rfl
  unfold computeOrderTotals
  dsimp only
  rw [← hsub, htax]

end StelloKitchens
