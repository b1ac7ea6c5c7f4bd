import Mathlib.Data.Int.Log
import Mathlib.Data.Rat.Floor
import Mathlib.Algebra.Order.Field.Power
import Mathlib.Tactic.Linarith
import Mathlib.Tactic.Positivity
import Mathlib.Tactic.FieldSimp
import Mathlib.Tactic.Ring
import Mathlib.Tactic.GCongr

/-!
# Binary64 numbers as rounded rationals

A binary64 number is a rational that its own rounding to 53 significant bits leaves fixed.
Rounding goes to the nearest such number, a tie to the even significand, and every arithmetic
operation is the exact rational operation followed by one rounding.

The exponent range is unbounded: overflow to an infinity, underflow to a subnormal and the
sign of a zero are not represented, and neither are the infinities and NaN. A program that
stays within the finite normal range computes exactly what is computed here.

## Main definitions

* `Binary64.round` — rounding of a rational to 53 significant bits.
* `Binary64` — the rationals that are fixed by it, with the rounded operations.
* `Binary64.nearestInt` — the nearest integer, halves going up, as a number.

## Main results

* `Binary64.abs_round_sub_le` — one rounding moves a rational by at most `2⁻⁵³` of itself.
* `Binary64.round_intCast_mul_zpow` — `m · 2ᵉ` with `|m| ≤ 2⁵³` is not moved.
-/

namespace Binary64

/-! ### Rounding to the nearest integer, ties to even -/

/-- The integer nearest to a rational, the even one of two equally near. -/
def roundEven (q : ℚ) : ℤ :=
  if q - ⌊q⌋ < 1 / 2 then ⌊q⌋
  else if 1 / 2 < q - ⌊q⌋ then ⌊q⌋ + 1
  else if ⌊q⌋ % 2 = 0 then ⌊q⌋ else ⌊q⌋ + 1

theorem abs_roundEven_sub_le (q : ℚ) : |(roundEven q : ℚ) - q| ≤ 1 / 2 := by
  have h₀ := Int.floor_le q
  have h₁ := Int.lt_floor_add_one q
  unfold roundEven
  split_ifs <;> push_cast <;> rw [abs_le] <;> constructor <;> linarith

theorem roundEven_intCast (n : ℤ) : roundEven (n : ℚ) = n := by
  simp [roundEven]

/-- Rounding does not depend on the sign. -/
theorem roundEven_neg (q : ℚ) : roundEven (-q) = -roundEven q := by
  by_cases hq : q = ⌊q⌋
  · rw [hq, ← Int.cast_neg, roundEven_intCast, roundEven_intCast]
  have h₀ := lt_of_le_of_ne (Int.floor_le q) (Ne.symm hq)
  have h₁ := Int.lt_floor_add_one q
  have hfloor : ⌊-q⌋ = -⌊q⌋ - 1 := by
    rw [Int.floor_eq_iff]
    push_cast
    constructor <;> linarith
  unfold roundEven
  rw [hfloor]
  push_cast
  split_ifs <;> first | omega | (exfalso; linarith)

/-! ### Rounding to 53 significant bits -/

/-- The exponent of the unit in the last place of a nonzero rational. -/
def ulpExp (q : ℚ) : ℤ := Int.log 2 |q| - 52

/-- The nearest rational with 53 significant bits, a tie going to the even significand. -/
def round (q : ℚ) : ℚ :=
  if q = 0 then 0 else roundEven (q / 2 ^ ulpExp q) * 2 ^ ulpExp q

@[simp] theorem round_zero : round 0 = 0 := by simp [round]

theorem zpow_ulpExp_le {q : ℚ} (hq : q ≠ 0) : (2 : ℚ) ^ ulpExp q * 2 ^ 52 ≤ |q| := by
  have h := Int.zpow_log_le_self (b := 2) (by norm_num) (abs_pos.mpr hq)
  calc (2 : ℚ) ^ ulpExp q * 2 ^ 52 = 2 ^ Int.log 2 |q| := by
        rw [ulpExp, ← zpow_natCast, ← zpow_add₀ two_ne_zero]
        norm_num
    _ ≤ |q| := by exact_mod_cast h

theorem lt_zpow_ulpExp (q : ℚ) : |q| < (2 : ℚ) ^ ulpExp q * 2 ^ 53 := by
  have h := Int.lt_zpow_succ_log_self (b := 2) (by norm_num) |q|
  calc |q| < (2 : ℚ) ^ (Int.log 2 |q| + 1) := by exact_mod_cast h
    _ = 2 ^ ulpExp q * 2 ^ 53 := by
        rw [ulpExp, ← zpow_natCast, ← zpow_add₀ two_ne_zero]
        norm_num
        ring_nf

/-- The unit roundoff of binary64. -/
def unitRoundoff : ℚ := 1 / 2 ^ 53

theorem unitRoundoff_pos : 0 < unitRoundoff := by norm_num [unitRoundoff]

/-- One rounding moves a rational by at most the unit roundoff times its size. -/
theorem abs_round_sub_le (q : ℚ) : |round q - q| ≤ unitRoundoff * |q| := by
  by_cases hq : q = 0
  · simp [hq]
  have hpos : (0 : ℚ) < 2 ^ ulpExp q := by positivity
  have hnear := abs_roundEven_sub_le (q / 2 ^ ulpExp q)
  have hsize := zpow_ulpExp_le hq
  have hfactor : round q - q =
      (roundEven (q / 2 ^ ulpExp q) - q / 2 ^ ulpExp q) * 2 ^ ulpExp q := by
    rw [round, if_neg hq, sub_mul, div_mul_cancel₀ _ hpos.ne']
  calc |round q - q|
      = |(roundEven (q / 2 ^ ulpExp q) : ℚ) - q / 2 ^ ulpExp q| * 2 ^ ulpExp q := by
        rw [hfactor, abs_mul, abs_of_pos hpos]
    _ ≤ 1 / 2 * 2 ^ ulpExp q := by gcongr
    _ ≤ unitRoundoff * |q| := by
        rw [unitRoundoff]
        linarith

/-- The significand of a rounded rational has at most 53 bits. -/
theorem abs_roundEven_ulp_le (q : ℚ) : |roundEven (q / 2 ^ ulpExp q)| ≤ 2 ^ 53 := by
  have hpos : (0 : ℚ) < 2 ^ ulpExp q := by positivity
  have hnear := abs_le.mp (abs_roundEven_sub_le (q / 2 ^ ulpExp q))
  have hlt : |q / 2 ^ ulpExp q| < 2 ^ 53 := by
    rw [abs_div, abs_of_pos hpos, div_lt_iff₀ hpos, mul_comm]
    exact lt_zpow_ulpExp q
  obtain ⟨hlo, hhi⟩ := abs_lt.mp hlt
  have h₁ : (roundEven (q / 2 ^ ulpExp q) : ℚ) < 2 ^ 53 + 1 := by linarith
  have h₂ : -(2 ^ 53 + 1 : ℚ) < roundEven (q / 2 ^ ulpExp q) := by linarith
  have h₁' : roundEven (q / 2 ^ ulpExp q) < 2 ^ 53 + 1 := by exact_mod_cast h₁
  have h₂' : -(2 ^ 53 + 1) < roundEven (q / 2 ^ ulpExp q) := by exact_mod_cast h₂
  rw [abs_le]
  omega

theorem round_neg (q : ℚ) : round (-q) = -round q := by
  unfold round ulpExp
  rw [abs_neg, neg_div, roundEven_neg]
  split_ifs with h₁ h₂
  · simp
  · exact absurd (neg_eq_zero.mp h₁) h₂
  · rename_i h₂
    exact absurd (neg_eq_zero.mpr h₂) h₁
  · push_cast
    ring

theorem round_nonneg {q : ℚ} (hq : 0 ≤ q) : 0 ≤ round q := by
  have h := (abs_le.mp (abs_round_sub_le q)).1
  rw [abs_of_nonneg hq] at h
  have hu : unitRoundoff * q ≤ 1 * q := by
    apply mul_le_mul_of_nonneg_right _ hq
    norm_num [unitRoundoff]
  linarith

/-- A significand of at most 53 bits, at any exponent, is not moved by rounding. -/
theorem round_intCast_mul_zpow (m e : ℤ) (hm : |m| ≤ 2 ^ 53) :
    round (m * 2 ^ e) = m * 2 ^ e := by
  by_cases hm0 : m = 0
  · simp [hm0]
  have hq : (m : ℚ) * 2 ^ e ≠ 0 := by positivity
  have hpos : (0 : ℚ) < 2 ^ ulpExp (m * 2 ^ e) := by positivity
  -- the unit in the last place divides the number: it is below it, and below `2ᵉ` or `m = ±2⁵³`
  obtain ⟨k, hk⟩ : ∃ k : ℤ, (m : ℚ) * 2 ^ e / 2 ^ ulpExp ((m : ℚ) * 2 ^ e) = k := by
    have hle := zpow_ulpExp_le hq
    have habs : |(m : ℚ) * 2 ^ e| = (|m| : ℤ) * 2 ^ e := by
      rw [abs_mul, abs_of_pos (by positivity : (0 : ℚ) < 2 ^ e), Int.cast_abs]
    rw [habs] at hle
    have hmq : ((|m| : ℤ) : ℚ) ≤ 2 ^ 53 := by exact_mod_cast hm
    have hexp : ulpExp ((m : ℚ) * 2 ^ e) ≤ e + 1 := by
      by_contra hlt
      have hge : (2 : ℚ) ^ (e + 2) ≤ 2 ^ ulpExp ((m : ℚ) * 2 ^ e) :=
        zpow_le_zpow_right₀ (by norm_num) (by omega)
      have h4 : (2 : ℚ) ^ (e + 2) = 2 ^ e * 4 := by
        rw [zpow_add₀ two_ne_zero]; norm_num
      have h2e : (0 : ℚ) < 2 ^ e := by positivity
      nlinarith
    rcases eq_or_lt_of_le hexp with heq | hlt
    · refine ⟨m / 2, ?_⟩
      have hlow : (2 : ℚ) ^ 53 ≤ (|m| : ℤ) := by
        have h2e : (0 : ℚ) < 2 ^ e := by positivity
        rw [heq, zpow_add₀ two_ne_zero, zpow_one] at hle
        nlinarith
      have hm53 : |m| = 2 ^ 53 := le_antisymm hm (by exact_mod_cast hlow)
      have hdvd : (2 : ℤ) ∣ m := (dvd_abs 2 m).mp (hm53 ▸ Dvd.intro (2 ^ 52) (by norm_num))
      rw [heq, zpow_add₀ two_ne_zero, zpow_one, Int.cast_div hdvd (by norm_num)]
      have h2e : (2 : ℚ) ^ e ≠ 0 := by positivity
      field_simp
      norm_num
    · refine ⟨m * 2 ^ (e - ulpExp ((m : ℚ) * 2 ^ e)).toNat, ?_⟩
      have hnn : 0 ≤ e - ulpExp ((m : ℚ) * 2 ^ e) := by omega
      push_cast
      rw [← zpow_natCast, Int.toNat_of_nonneg hnn, zpow_sub₀ two_ne_zero, mul_div_assoc]
  rw [round, if_neg hq, hk, roundEven_intCast, ← hk, div_mul_cancel₀ _ hpos.ne']

/-- Rounding twice is rounding once. -/
theorem round_round (q : ℚ) : round (round q) = round q := by
  by_cases hq : q = 0
  · simp [hq]
  · conv_lhs => rw [round.eq_1 q, if_neg hq]
    rw [round_intCast_mul_zpow _ _ (abs_roundEven_ulp_le q), round, if_neg hq]

theorem round_intCast (m : ℤ) (hm : |m| ≤ 2 ^ 53) : round m = m := by
  simpa using round_intCast_mul_zpow m 0 hm

/-- Rounding a whole number gives a whole number, at any size. -/
theorem round_isInt (m : ℤ) : ∃ n : ℤ, round m = n := by
  by_cases hm : |m| ≤ 2 ^ 53
  · exact ⟨m, round_intCast m hm⟩
  have hm0 : (m : ℚ) ≠ 0 := by
    intro h
    rw [Int.cast_eq_zero.mp h] at hm
    norm_num at hm
  have hlog : (53 : ℤ) ≤ Int.log 2 |(m : ℚ)| := by
    rw [← Int.zpow_le_iff_le_log (by norm_num) (abs_pos.mpr hm0)]
    have : (2 : ℤ) ^ 53 ≤ |m| := by omega
    exact_mod_cast this
  have hexp : 0 ≤ ulpExp m := by
    rw [ulpExp]
    omega
  refine ⟨roundEven (m / 2 ^ ulpExp m) * 2 ^ (ulpExp (m : ℚ)).toNat, ?_⟩
  rw [round, if_neg hm0]
  push_cast
  rw [← zpow_natCast (2 : ℚ), Int.toNat_of_nonneg hexp]

end Binary64

/-! ### Binary64 numbers -/

/-- A rational that rounding to 53 significant bits leaves fixed. -/
structure Binary64 where
  /-- The number itself. -/
  val : ℚ
  /-- The number has at most 53 significant bits. -/
  representable : Binary64.round val = val

namespace Binary64

@[ext] theorem ext {x y : Binary64} (h : x.val = y.val) : x = y := by
  cases x
  cases y
  simpa using h

instance : DecidableEq Binary64 := fun x y =>
  decidable_of_iff (x.val = y.val) ⟨ext, congrArg val⟩

/-- The number a rational rounds to. -/
def ofRat (q : ℚ) : Binary64 := ⟨round q, round_round q⟩

@[simp] theorem val_ofRat (q : ℚ) : (ofRat q).val = round q := rfl

@[simp] theorem ofRat_val (x : Binary64) : ofRat x.val = x := ext x.representable

instance (n : ℕ) : OfNat Binary64 n := ⟨ofRat n⟩

instance : Inhabited Binary64 := ⟨0⟩

/-- Addition, rounded once. -/
instance : Add Binary64 := ⟨fun x y => ofRat (x.val + y.val)⟩

/-- Subtraction, rounded once. -/
instance : Sub Binary64 := ⟨fun x y => ofRat (x.val - y.val)⟩

/-- Multiplication, rounded once. -/
instance : Mul Binary64 := ⟨fun x y => ofRat (x.val * y.val)⟩

/-- Division, rounded once; the quotient by zero is not a number of this type. -/
instance : Div Binary64 := ⟨fun x y => ofRat (x.val / y.val)⟩

/-- The sign is changed without rounding. -/
instance : Neg Binary64 := ⟨fun x => ofRat (-x.val)⟩

theorem val_ofNat (n : ℕ) : (OfNat.ofNat n : Binary64).val = round n := rfl

@[simp] theorem val_neg (x : Binary64) : (-x).val = -x.val := by
  change round (-x.val) = -x.val
  rw [round_neg, x.representable]

theorem val_add (x y : Binary64) : (x + y).val = round (x.val + y.val) := rfl

theorem val_sub (x y : Binary64) : (x - y).val = round (x.val - y.val) := rfl

theorem val_mul (x y : Binary64) : (x * y).val = round (x.val * y.val) := rfl

theorem val_div (x y : Binary64) : (x / y).val = round (x.val / y.val) := rfl

@[simp] theorem val_zero : (0 : Binary64).val = 0 := by
  rw [val_ofNat]
  simp

/-- Comparison is comparison of the numbers. -/
instance : LinearOrder Binary64 :=
  LinearOrder.lift' val fun _ _ => ext

theorem le_def {x y : Binary64} : x ≤ y ↔ x.val ≤ y.val := Iff.rfl

theorem lt_def {x y : Binary64} : x < y ↔ x.val < y.val := Iff.rfl

theorem nonneg_iff {x : Binary64} : 0 ≤ x ↔ 0 ≤ x.val := by rw [le_def, val_zero]

theorem zero_le_add {x y : Binary64} (hx : 0 ≤ x) (hy : 0 ≤ y) : 0 ≤ x + y :=
  nonneg_iff.mpr (round_nonneg (add_nonneg (nonneg_iff.mp hx) (nonneg_iff.mp hy)))

theorem zero_le_sub {x y : Binary64} (h : y ≤ x) : 0 ≤ x - y :=
  nonneg_iff.mpr (round_nonneg (sub_nonneg.mpr h))

theorem zero_le_mul {x y : Binary64} (hx : 0 ≤ x) (hy : 0 ≤ y) : 0 ≤ x * y :=
  nonneg_iff.mpr (round_nonneg (mul_nonneg (nonneg_iff.mp hx) (nonneg_iff.mp hy)))

theorem zero_le_div {x y : Binary64} (hx : 0 ≤ x) (hy : 0 ≤ y) : 0 ≤ x / y :=
  nonneg_iff.mpr (round_nonneg (div_nonneg (nonneg_iff.mp hx) (nonneg_iff.mp hy)))

theorem zero_le_ofRat {q : ℚ} (hq : 0 ≤ q) : 0 ≤ ofRat q := nonneg_iff.mpr (round_nonneg hq)

/-- The nearest integer, halves going up, as a number. -/
def nearestInt (x : Binary64) : Binary64 := ofRat ⌊x.val + 1 / 2⌋

/-- The nearest integer is a whole number, at any size. -/
theorem nearestInt_isInt (x : Binary64) : ∃ n : ℤ, x.nearestInt.val = n :=
  round_isInt ⌊x.val + 1 / 2⌋

theorem zero_le_nearestInt {x : Binary64} (hx : 0 ≤ x) : 0 ≤ x.nearestInt := by
  have h : (0 : ℤ) ≤ ⌊x.val + 1 / 2⌋ := Int.floor_nonneg.mpr (by linarith [nonneg_iff.mp hx])
  exact nonneg_iff.mpr (round_nonneg (by exact_mod_cast h))

/-- The floor, as a number. -/
def floor (x : Binary64) : Binary64 := ofRat ⌊x.val⌋

/-- The number is a whole number. -/
def IsInteger (x : Binary64) : Prop := x.val.den = 1

instance (x : Binary64) : Decidable x.IsInteger := inferInstanceAs (Decidable (_ = _))

/-! ### Exact operations on whole numbers -/

theorem val_ofRat_intCast {m : ℤ} (hm : |m| ≤ 2 ^ 53) : (ofRat m).val = m :=
  round_intCast m hm

theorem val_ofNat_of_le {n : ℕ} (hn : n ≤ 2 ^ 53) : (OfNat.ofNat n : Binary64).val = n := by
  have h := round_intCast (n : ℤ) (by rw [Nat.abs_cast]; exact_mod_cast hn)
  simpa [val_ofNat] using h

theorem val_add_intCast {x y : Binary64} {m n : ℤ} (hx : x.val = m) (hy : y.val = n)
    (h : |m + n| ≤ 2 ^ 53) : (x + y).val = ((m + n : ℤ) : ℚ) := by
  rw [val_add, hx, hy, ← Int.cast_add, round_intCast _ h]

theorem val_sub_intCast {x y : Binary64} {m n : ℤ} (hx : x.val = m) (hy : y.val = n)
    (h : |m - n| ≤ 2 ^ 53) : (x - y).val = ((m - n : ℤ) : ℚ) := by
  rw [val_sub, hx, hy, ← Int.cast_sub, round_intCast _ h]

/-- The nearest integer of a number close to a small integer is that integer. -/
theorem val_nearestInt {x : Binary64} {m : ℤ} (hm : |m| ≤ 2 ^ 53)
    (hlo : (m : ℚ) - 1 / 2 ≤ x.val) (hhi : x.val < m + 1 / 2) : x.nearestInt.val = m := by
  have hfloor : ⌊x.val + 1 / 2⌋ = m := by
    rw [Int.floor_eq_iff]
    constructor <;> linarith
  rw [nearestInt, hfloor, val_ofRat_intCast hm]

end Binary64
