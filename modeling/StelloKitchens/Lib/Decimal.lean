import StelloKitchens.Lib.Binary64

/-!
# Fixed-point decimals and the doubles stored in them

A fixed-point column has so many digits, so many of them after the point. A double is stored
through its decimal text, the shortest that reads back as the double, rounded to the digits of
the column, halves away from zero; it does not fit when it has too many digits before the point.

## Main definitions

* `Decimal p s` — the fixed-point decimals with `p` digits, `s` of them after the point.
* `Binary64.shortest` — the shortest decimal that rounds to a double.
* `Decimal.toNumber`, `Decimal.ofNumber` — between decimals and doubles.

## Main results

* `Decimal.ofNumber_ofRat` — a double nearest to a decimal of the column is stored as it.
* `Decimal.ofNumber_toNumber` — a decimal survives the way through its double.
-/

/-! ### The shortest decimal of a double -/

namespace Binary64

/-- The multiple of `10⁻ᵏ` nearest to a number. -/
def nearestDecimal (k : ℕ) (q : ℚ) : ℚ := roundEven (q * 10 ^ k) / 10 ^ k

/-- The decimal with the fewest digits after the point that rounds to the double. Twenty digits
tell apart all doubles from a thousandth up; a smaller one is left as it is. -/
def shortest (x : Binary64) : ℚ :=
  ((List.range 21).find? fun k => ofRat (nearestDecimal k x.val) = x).elim x.val
    fun k => nearestDecimal k x.val

theorem nearestDecimal_nonneg (k : ℕ) {q : ℚ} (hq : 0 ≤ q) : 0 ≤ nearestDecimal k q := by
  have hround : 0 ≤ roundEven (q * 10 ^ k) := by
    have h := abs_le.mp (abs_roundEven_sub_le (q * 10 ^ k))
    have hpos : 0 ≤ q * 10 ^ k := by positivity
    have hlow : (-1 : ℚ) < roundEven (q * 10 ^ k) := by linarith
    have hlow' : -1 < roundEven (q * 10 ^ k) := by exact_mod_cast hlow
    omega
  exact div_nonneg (by exact_mod_cast hround) (by positivity)

theorem shortest_nonneg {x : Binary64} (hx : 0 ≤ x.val) : 0 ≤ x.shortest := by
  rw [shortest]
  cases (List.range 21).find? fun k => ofRat (nearestDecimal k x.val) = x with
  | none => exact hx
  | some k => exact nearestDecimal_nonneg k hx

theorem abs_nearestDecimal_sub_le (k : ℕ) (q : ℚ) : |nearestDecimal k q - q| ≤ 1 / 2 := by
  have hpos : (1 : ℚ) ≤ 10 ^ k := one_le_pow₀ (by norm_num)
  have hpos' : (0 : ℚ) < 10 ^ k := by linarith
  have h := abs_roundEven_sub_le (q * 10 ^ k)
  have hfactor : nearestDecimal k q - q = (roundEven (q * 10 ^ k) - q * 10 ^ k) / 10 ^ k := by
    rw [nearestDecimal]
    field_simp
  rw [hfactor, abs_div, abs_of_pos hpos']
  exact (div_le_self (abs_nonneg _) hpos).trans h

theorem abs_shortest_sub_le (x : Binary64) : |x.shortest - x.val| ≤ 1 / 2 := by
  rw [shortest]
  cases (List.range 21).find? fun k => ofRat (nearestDecimal k x.val) = x with
  | none => simp
  | some k => exact abs_nearestDecimal_sub_le k x.val

/-- Decimals with the same digits after the point and not too many before it round to different
doubles. -/
theorem eq_of_ofRat_eq {s : ℕ} {m n : ℤ} (hsize : |m| + |n| < 2 ^ 53)
    (h : ofRat (m / 10 ^ s) = ofRat (n / 10 ^ s)) : m = n := by
  have hpos : (0 : ℚ) < 10 ^ s := by positivity
  have hm := abs_round_sub_le (m / 10 ^ s)
  have hn := abs_round_sub_le (n / 10 ^ s)
  have hval : round (m / 10 ^ s) = round (n / 10 ^ s) := congrArg val h
  have hsizeq : |(m : ℚ)| + |(n : ℚ)| < 2 ^ 53 := by exact_mod_cast hsize
  have hdist : |((m - n : ℤ) : ℚ)| / 10 ^ s ≤ unitRoundoff * (|(m : ℚ)| + |(n : ℚ)|) / 10 ^ s := by
    calc |((m - n : ℤ) : ℚ)| / 10 ^ s = |(m / 10 ^ s : ℚ) - n / 10 ^ s| := by
          rw [← sub_div, abs_div, abs_of_pos hpos]
          push_cast
          rfl
      _ ≤ |(m / 10 ^ s : ℚ) - round (m / 10 ^ s)| + |round (m / 10 ^ s) - n / 10 ^ s| :=
          abs_sub_le _ _ _
      _ ≤ unitRoundoff * |(m / 10 ^ s : ℚ)| + unitRoundoff * |(n / 10 ^ s : ℚ)| := by
          rw [abs_sub_comm]
          rw [← hval] at hn
          exact add_le_add hm hn
      _ = unitRoundoff * (|(m : ℚ)| + |(n : ℚ)|) / 10 ^ s := by
          rw [abs_div, abs_div, abs_of_pos hpos]
          ring
  rw [div_le_div_iff_of_pos_right hpos] at hdist
  have hlt : |((m - n : ℤ) : ℚ)| < 1 := by
    refine hdist.trans_lt ?_
    calc unitRoundoff * (|(m : ℚ)| + |(n : ℚ)|) < unitRoundoff * 2 ^ 53 := by
          exact mul_lt_mul_of_pos_left hsizeq unitRoundoff_pos
      _ = 1 := by norm_num [unitRoundoff]
  have hint : |m - n| < 1 := by exact_mod_cast hlt
  have := abs_lt.mp hint
  omega

/-- A multiple of `10⁻ˢ` is the shortest decimal of the double it rounds to. -/
theorem shortest_ofRat {s : ℕ} {m : ℤ} (hs : s ≤ 15) (hm : |m| ≤ 2 ^ 50) :
    (ofRat (m / 10 ^ s)).shortest = m / 10 ^ s := by
  have hpos : (0 : ℚ) < 10 ^ s := by positivity
  have hmq : |(m : ℚ)| ≤ 2 ^ 50 := by exact_mod_cast hm
  have hs10 : (10 : ℚ) ^ s ≤ 10 ^ 15 := pow_le_pow_right₀ (by norm_num) hs
  set x := ofRat (m / 10 ^ s) with hx
  have hval : |x.val * 10 ^ s - m| ≤ 1 / 8 := by
    have h := abs_round_sub_le (m / 10 ^ s)
    have hfactor : x.val * 10 ^ s - m = (x.val - m / 10 ^ s) * 10 ^ s := by field_simp
    rw [hfactor, abs_mul, abs_of_pos hpos]
    calc |x.val - m / 10 ^ s| * 10 ^ s ≤ unitRoundoff * |(m / 10 ^ s : ℚ)| * 10 ^ s :=
          mul_le_mul_of_nonneg_right h hpos.le
      _ = unitRoundoff * |(m : ℚ)| := by
          rw [abs_div, abs_of_pos hpos]
          field_simp
      _ ≤ unitRoundoff * 2 ^ 50 := mul_le_mul_of_nonneg_left hmq unitRoundoff_pos.le
      _ = 1 / 8 := by norm_num [unitRoundoff]
  -- with `s` digits the decimal itself is found
  have hself : nearestDecimal s x.val = m / 10 ^ s := by
    have hround := abs_roundEven_sub_le (x.val * 10 ^ s)
    have htri := abs_sub_le (roundEven (x.val * 10 ^ s) : ℚ) (x.val * 10 ^ s) m
    have hlt : |((roundEven (x.val * 10 ^ s) - m : ℤ) : ℚ)| < 1 := by
      push_cast
      linarith
    have hint : |roundEven (x.val * 10 ^ s) - m| < 1 := by exact_mod_cast hlt
    have := abs_lt.mp hint
    rw [nearestDecimal, show roundEven (x.val * 10 ^ s) = m by omega]
  -- with fewer, what rounds to the same double is the same decimal
  have hfewer : ∀ k ≤ s, ofRat (nearestDecimal k x.val) = x → nearestDecimal k x.val = m / 10 ^ s := by
    intro k hk hround
    have hsplit : (10 : ℚ) ^ s = 10 ^ k * 10 ^ (s - k) := by
      rw [← pow_add, Nat.add_sub_cancel' hk]
    have hdec : nearestDecimal k x.val =
        ((roundEven (x.val * 10 ^ k) * 10 ^ (s - k) : ℤ) : ℚ) / 10 ^ s := by
      rw [nearestDecimal, hsplit]
      push_cast
      field_simp
    have hnear := abs_nearestDecimal_sub_le k x.val
    have hbig : |((roundEven (x.val * 10 ^ k) * 10 ^ (s - k) : ℤ) : ℚ)| ≤ 2 ^ 50 + 1 + 10 ^ 15 := by
      have hmul : ((roundEven (x.val * 10 ^ k) * 10 ^ (s - k) : ℤ) : ℚ) =
          (nearestDecimal k x.val - x.val) * 10 ^ s + (x.val * 10 ^ s - m) + m := by
        rw [hdec]
        field_simp
        ring
      rw [hmul]
      have h₁ : |(nearestDecimal k x.val - x.val) * 10 ^ s| ≤ 1 / 2 * 10 ^ 15 := by
        rw [abs_mul, abs_of_pos hpos]
        exact mul_le_mul hnear hs10 hpos.le (by norm_num)
      have h₂ := abs_add_le ((nearestDecimal k x.val - x.val) * 10 ^ s + (x.val * 10 ^ s - m)) m
      have h₃ := abs_add_le ((nearestDecimal k x.val - x.val) * 10 ^ s) (x.val * 10 ^ s - m)
      linarith
    have hbig' : |roundEven (x.val * 10 ^ k) * 10 ^ (s - k)| ≤ 2 ^ 50 + 1 + 10 ^ 15 := by
      exact_mod_cast hbig
    rw [hdec] at hround ⊢
    rw [eq_of_ofRat_eq (by norm_num at hm hbig' ⊢; omega) hround]
  rw [shortest]
  cases h : (List.range 21).find? fun k => ofRat (nearestDecimal k x.val) = x with
  | none =>
    have hs := List.find?_eq_none.mp h s (List.mem_range.mpr (by omega))
    rw [hself] at hs
    simp [hx] at hs
  | some k =>
    obtain ⟨hk, -, hfirst⟩ := List.find?_range_eq_some.mp h
    have hks : k ≤ s := by
      by_contra hlt
      have hs := hfirst s (by omega)
      rw [hself] at hs
      simp [hx] at hs
    exact hfewer k hks (by simpa using hk)

end Binary64

/-! ### Columns -/

/-- The fixed-point decimals with `precision` digits, `scale` of them after the point. -/
structure Decimal (precision scale : ℕ) where
  /-- The decimal times `10 ^ scale`. -/
  scaled : ℤ
  /-- It has no more digits than the column. -/
  bound : |scaled| < 10 ^ precision
  deriving DecidableEq

namespace Decimal

variable {p s : ℕ}

@[ext] theorem ext {c d : Decimal p s} (h : c.scaled = d.scaled) : c = d := by
  cases c
  cases d
  simpa using h

instance : Zero (Decimal p s) := ⟨⟨0, by simp⟩⟩

@[simp] theorem scaled_zero : (0 : Decimal p s).scaled = 0 := rfl

instance : Inhabited (Decimal p s) := ⟨0⟩

/-- A decimal of a column that is not too wide is a significand of few bits. -/
theorem abs_scaled_le (hp : p ≤ 15) (d : Decimal p s) : |d.scaled| ≤ 2 ^ 50 := by
  have hbound : (10 : ℤ) ^ p ≤ 10 ^ 15 := pow_le_pow_right₀ (by norm_num) hp
  exact (d.bound.le.trans hbound).trans (by norm_num)

/-- The double nearest to a decimal. -/
def toNumber (d : Decimal p s) : Binary64 := Binary64.ofRat (d.scaled / 10 ^ s)

/-- The nearest integer, a half going away from zero. -/
def roundHalfAway (q : ℚ) : ℤ := if 0 ≤ q then ⌊q + 1 / 2⌋ else -⌊-q + 1 / 2⌋

/-- Store an integer number of the last digit's units, if it fits. -/
def ofScaled (n : ℤ) : Option (Decimal p s) := if h : |n| < 10 ^ p then some ⟨n, h⟩ else none

/-- Store a double: its shortest decimal, rounded to the digits of the column, if it fits. -/
def ofNumber (x : Binary64) : Option (Decimal p s) := ofScaled (roundHalfAway (x.shortest * 10 ^ s))

theorem roundHalfAway_intCast (n : ℤ) : roundHalfAway n = n := by
  have hfloor : ∀ m : ℤ, ⌊(m : ℚ) + 1 / 2⌋ = m := by
    intro m
    rw [Int.floor_eq_iff]
    constructor <;> linarith
  rw [roundHalfAway, ← Int.cast_neg, hfloor, hfloor, neg_neg, ite_self]

theorem abs_roundHalfAway_sub_le (q : ℚ) : |(roundHalfAway q : ℚ) - q| ≤ 1 / 2 := by
  have h₀ := Int.floor_le (q + 1 / 2)
  have h₁ := Int.lt_floor_add_one (q + 1 / 2)
  have h₂ := Int.floor_le (-q + 1 / 2)
  have h₃ := Int.lt_floor_add_one (-q + 1 / 2)
  unfold roundHalfAway
  split_ifs <;> push_cast <;> rw [abs_le] <;> constructor <;> linarith

theorem ofScaled_eq_some {n : ℤ} {d : Decimal p s} : ofScaled n = some d ↔ d.scaled = n := by
  unfold ofScaled
  split
  · rw [Option.some.injEq, Decimal.ext_iff, eq_comm]
  · rename_i h
    refine ⟨fun h => (by cases h), fun hd => absurd (hd ▸ d.bound) h⟩

theorem ofScaled_scaled (d : Decimal p s) : ofScaled d.scaled = some d := ofScaled_eq_some.mpr rfl

/-- A double nearest to a multiple of the last digit is stored as that multiple. -/
theorem ofNumber_ofRat (hs : s ≤ 15) {m : ℤ} (hm : |m| ≤ 2 ^ 50) :
    (ofNumber (Binary64.ofRat (m / 10 ^ s)) : Option (Decimal p s)) = ofScaled m := by
  have hpos : (10 : ℚ) ^ s ≠ 0 := by positivity
  rw [ofNumber, Binary64.shortest_ofRat hs hm, div_mul_cancel₀ _ hpos, roundHalfAway_intCast]

/-- A decimal survives the way through its double. -/
theorem ofNumber_toNumber (hs : s ≤ 15) (hp : p ≤ 15) (d : Decimal p s) :
    (ofNumber d.toNumber : Option (Decimal p s)) = some d := by
  rw [toNumber, ofNumber_ofRat hs (d.abs_scaled_le hp), ofScaled_scaled]

/-- A number that is not negative is stored as a decimal that is not negative. -/
theorem scaled_nonneg_of_ofNumber {x : Binary64} (hx : 0 ≤ x.val) {d : Decimal p s}
    (h : ofNumber x = some d) : 0 ≤ d.scaled := by
  rw [ofNumber, ofScaled_eq_some] at h
  have hq : 0 ≤ x.shortest * 10 ^ s := mul_nonneg (Binary64.shortest_nonneg hx) (by positivity)
  rw [h, roundHalfAway, if_pos hq]
  exact Int.floor_nonneg.mpr (by linarith)

/-- A double with too many digits before the point does not fit. -/
theorem ofNumber_eq_none {x : Binary64} (h : 10 ^ p + 10 ^ s ≤ |x.val| * 10 ^ s) :
    (ofNumber x : Option (Decimal p s)) = none := by
  have hone : (1 : ℚ) ≤ 10 ^ s := one_le_pow₀ (by norm_num)
  have hshort := Binary64.abs_shortest_sub_le x
  have hround := abs_roundHalfAway_sub_le (x.shortest * 10 ^ s)
  have hlow : |x.val| * 10 ^ s - 1 / 2 * 10 ^ s ≤ |x.shortest * 10 ^ s| := by
    rw [abs_mul, abs_of_pos (by linarith : (0 : ℚ) < 10 ^ s)]
    have htri := abs_sub_abs_le_abs_sub x.val x.shortest
    rw [abs_sub_comm] at hshort
    have := mul_le_mul_of_nonneg_right (htri.trans hshort) (by linarith : (0 : ℚ) ≤ 10 ^ s)
    linarith
  have hbig : (10 : ℚ) ^ p ≤ |(roundHalfAway (x.shortest * 10 ^ s) : ℚ)| := by
    have htri := abs_sub_abs_le_abs_sub (x.shortest * 10 ^ s) (roundHalfAway (x.shortest * 10 ^ s))
    rw [abs_sub_comm] at hround
    linarith
  rw [ofNumber, ofScaled, dif_neg]
  rw [not_lt]
  exact_mod_cast hbig

end Decimal
