import StelloKitchens.Lib.RoundingError
import StelloKitchens.Lib.RoundingOrder
import StelloKitchens.Shared.Amount

/-!
# Rupees in whole paise

Amounts that are whole paise, given in rupees as the doubles nearest to them, survive a few
operations in doubles: what is near whole paise is read back as these.

## Main definitions

* `InCents` — an amount in whole paise, given in rupees.

## Main results

* `toPaise_mono`, `toPaise_min` — paise in the order of rupees.
* `val_toPaise_cents` — whole paise are read back.
* `val_toPaise_of_approx` — and so are amounts a few roundings off them.
-/

namespace StelloKitchens

/-! ### Paise in the order of rupees -/

theorem toPaise_mono {x y : Binary64} (h : x ≤ y) : toPaise x ≤ toPaise y :=
  Binary64.nearestInt_mono (Binary64.mul_mono_left h zero_le_hundred)

theorem val_max (x y : Binary64) : (max x y).val = max x.val y.val := by
  rcases le_total x y with h | h
  · rw [max_eq_right h, max_eq_right (Binary64.le_def.mp h)]
  · rw [max_eq_left h, max_eq_left (Binary64.le_def.mp h)]

theorem val_min (x y : Binary64) : (min x y).val = min x.val y.val := by
  rcases le_total x y with h | h
  · rw [min_eq_left h, min_eq_left (Binary64.le_def.mp h)]
  · rw [min_eq_right h, min_eq_right (Binary64.le_def.mp h)]

theorem toPaise_min (x y : Binary64) : toPaise (min x y) = min (toPaise x) (toPaise y) :=
  Monotone.map_min fun _ _ => toPaise_mono

/-- A number that is rounded to few paise is not much larger. -/
theorem val_lt_of_nearestInt_lt {x : Binary64} (h : x.nearestInt.val < 10 ^ 10) : x.val < 10 ^ 11 := by
  by_contra hlarge
  have hval : (Binary64.ofRat ((10 ^ 11 : ℤ) : ℚ)).val = ((10 ^ 11 : ℤ) : ℚ) :=
    Binary64.val_ofRat_intCast (by norm_num)
  have hle : Binary64.ofRat ((10 ^ 11 : ℤ) : ℚ) ≤ x := by
    rw [Binary64.le_def, hval]
    exact_mod_cast not_lt.mp hlarge
  have hround := Binary64.le_def.mp (Binary64.nearestInt_mono hle)
  rw [nearestInt_of_int hval, hval] at hround
  have : ((10 ^ 11 : ℤ) : ℚ) < 10 ^ 10 := lt_of_le_of_lt hround h
  norm_num at this

/-- Half of a whole number is exact, and so is its floor. -/
theorem val_half {x : Binary64} {m : ℤ} (hx : x.val = m) (hm : |m| ≤ 2 ^ 53) :
    (x / 2).val = m / 2 ∧ (x / 2).floor.val = ((m / 2 : ℤ) : ℚ) := by
  have hdiv : (x / 2).val = (m : ℚ) / (2 : ℕ) := by
    have hexact := Binary64.round_intCast_mul_zpow m (-1) hm
    rw [Binary64.val_div, hx, Binary64.val_ofNat_of_le (by norm_num)]
    rwa [zpow_neg_one, ← div_eq_mul_inv] at hexact
  refine ⟨hdiv, ?_⟩
  rw [abs_le] at hm
  rw [Binary64.floor, hdiv, Rat.floor_intCast_div_natCast]
  exact Binary64.val_ofRat_intCast (by rw [abs_le]; omega)

theorem abs_nearestInt_sub_le {x : Binary64} (h0 : 0 ≤ x.val) (h : x.val < 10 ^ 11) :
    |x.nearestInt.val - x.val| ≤ 1 / 2 := by
  have hlo := Int.floor_le (x.val + 1 / 2)
  have hhi := Int.lt_floor_add_one (x.val + 1 / 2)
  have hfloor0 : 0 ≤ ⌊x.val + 1 / 2⌋ := Int.floor_nonneg.mpr (by linarith)
  have hfloor : ⌊x.val + 1 / 2⌋ ≤ 2 ^ 53 := by
    have : (⌊x.val + 1 / 2⌋ : ℚ) ≤ 2 ^ 53 := by linarith
    exact_mod_cast this
  rw [Binary64.nearestInt, Binary64.val_ofRat_intCast (by rw [abs_of_nonneg hfloor0]; exact hfloor),
    abs_le]
  constructor <;> linarith

/-! ### Whole paise -/

/-- Whole paise that are not too many are as many when they are read back from rupees. -/
theorem val_toPaise_cents {x : Binary64} {k : ℤ} (hx : x = .ofRat (k / 10 ^ 2)) (hk : 0 ≤ k)
    (h : (toPaise x).val < 10 ^ 10) : (toPaise x).val = k := by
  have hsmall : k ≤ 2 ^ 50 := by
    by_contra hlarge
    have hle : Binary64.ofRat (((2 ^ 50 : ℤ) : ℚ) / 10 ^ 2) ≤ x := by
      rw [hx]
      refine Binary64.round_mono (div_le_div_of_nonneg_right ?_ (by norm_num))
      exact_mod_cast (not_le.mp hlarge).le
    have hpaise := Binary64.le_def.mp (toPaise_mono hle)
    rw [val_toPaise_ofRat (by norm_num)] at hpaise
    have : (2 ^ 50 : ℚ) < 10 ^ 10 := lt_of_le_of_lt (by exact_mod_cast hpaise) h
    norm_num at this
  rw [hx, val_toPaise_ofRat]
  rw [abs_of_nonneg hk]
  exact hsmall

/-- A discount in whole paise, as a till sends it. -/
def InCents (x : Binary64) : Prop := ∃ k : ℕ, x = .ofRat (k / 10 ^ 2)

theorem inCents_zero : InCents 0 := ⟨0, by
  apply Binary64.ext
  simp⟩

theorem InCents.nonneg {x : Binary64} (h : InCents x) : 0 ≤ x := by
  obtain ⟨k, rfl⟩ := h
  exact Binary64.zero_le_ofRat (by positivity)

theorem inCents_column {a : Amount} (h : 0 ≤ a.scaled) : InCents a.toNumber := by
  obtain ⟨k, hk⟩ := Int.eq_ofNat_of_zero_le h
  exact ⟨k, by rw [Decimal.toNumber, hk, Int.cast_natCast]⟩

/-- Whole paise, given in rupees, are off by one rounding. -/
theorem approx_ofRat_paise (k : ℤ) :
    Binary64.Approx 1 (((|k| : ℤ) : ℚ) / 100) (.ofRat (k / 10 ^ 2)) (k / 100) := by
  have habs : |(k : ℚ) / 100| = ((|k| : ℤ) : ℚ) / 100 := by
    rw [abs_div, Int.cast_abs]
    norm_num
  rw [show ((k : ℚ) / 10 ^ 2) = k / 100 by norm_num, ← habs]
  refine Binary64.Approx.round (m := 0) ?_ le_rfl
  rw [sub_self, abs_zero, Binary64.growth, pow_zero, sub_self, zero_mul]

theorem approx_ofRat_cents {k : ℤ} (hk : 0 ≤ k) :
    Binary64.Approx 1 (k / 100) (.ofRat (k / 10 ^ 2)) (k / 100) := by
  have h := approx_ofRat_paise k
  rwa [abs_of_nonneg hk] at h

theorem approx_cents {x : Binary64} (h : InCents x) (hsmall : (toPaise x).val < 10 ^ 10) :
    ∃ k : ℤ, 0 ≤ k ∧ k < 10 ^ 10 ∧ Binary64.Approx 1 (k / 100) x (k / 100) := by
  obtain ⟨k, rfl⟩ := h
  have hval := val_toPaise_cents (k := k) (by rw [Int.cast_natCast]) (Int.natCast_nonneg k) hsmall
  rw [hval] at hsmall
  exact ⟨k, Int.natCast_nonneg k, by exact_mod_cast hsmall, approx_ofRat_cents (Int.natCast_nonneg k)⟩

theorem growth_nine : Binary64.growth 9 * 10 ^ 12 < 1 / 4 := by
  norm_num [Binary64.growth, Binary64.unitRoundoff]

theorem growth_mul_lt {m : ℕ} {w : ℚ} (hm : m ≤ 8) (hw0 : 0 ≤ w) (hw : w < 10 ^ 12) :
    Binary64.growth (m + 1) * w < 1 / 4 := by
  refine lt_of_le_of_lt (mul_le_mul_of_nonneg_right (Binary64.growth_mono (n := 9) (by omega)) hw0) ?_
  exact lt_of_le_of_lt (mul_le_mul_of_nonneg_left hw.le (Binary64.growth_nonneg 9)) growth_nine

/-- Rupees near some paise come to about as many when they are taken to paise. -/
theorem abs_paise_sub_lt {m : ℕ} {x : Binary64} {w q : ℚ}
    (h : Binary64.Approx m (w / 100) x (q / 100)) (hw : Binary64.growth (m + 1) * w < 1 / 4) :
    |(x * 100).val - q| < 1 / 4 := by
  have hx := h.mul 100
  rw [val_hundred, show |(100 : ℚ)| = 100 by norm_num, div_mul_cancel₀ _ (by norm_num),
    div_mul_cancel₀ _ (by norm_num)] at hx
  exact lt_of_le_of_lt hx.error hw

/-- Rupees near whole paise are read back as these. -/
theorem val_toPaise_of_near {x : Binary64} {k : ℤ} (h : |(x * 100).val - k| < 1 / 4)
    (hk : |k| ≤ 2 ^ 53) : (toPaise x).val = k := by
  obtain ⟨hlo, hhi⟩ := abs_lt.mp h
  exact Binary64.val_nearestInt hk (by linarith) (by linarith)

theorem weight_nonneg_of_approx {m : ℕ} {x : Binary64} {w q : ℚ}
    (h : Binary64.Approx m (w / 100) x (q / 100)) : 0 ≤ w := by
  have := h.weight_nonneg
  linarith

theorem paise_of_approx {m : ℕ} {x : Binary64} {w q : ℚ}
    (h : Binary64.Approx m (w / 100) x (q / 100)) (hm : m ≤ 8) (hw : w < 10 ^ 12) :
    |(x * 100).val - q| < 1 / 4 :=
  abs_paise_sub_lt h (growth_mul_lt hm (weight_nonneg_of_approx h) hw)

/-- Rupees that are few roundings off whole paise are read back as these. -/
theorem val_toPaise_of_approx {m : ℕ} {x : Binary64} {w : ℚ} {k : ℤ}
    (h : Binary64.Approx m (w / 100) x (k / 100)) (hm : m ≤ 8) (hw : w < 10 ^ 12) :
    (toPaise x).val = k := by
  refine val_toPaise_of_near (paise_of_approx h hm hw) ?_
  have hsize := h.size
  rw [abs_div, show |(100 : ℚ)| = 100 by norm_num] at hsize
  have : |(k : ℚ)| ≤ 2 ^ 53 := by linarith
  exact_mod_cast this

end StelloKitchens
