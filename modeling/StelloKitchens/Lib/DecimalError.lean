import StelloKitchens.Lib.Decimal
import StelloKitchens.Lib.RoundingError

/-!
# Doubles near the decimals of a column

A computed double is a little off the exact number. While that is well within half a unit of the
last digit of a column, the column holds what the exact number would have given.

## Main definitions

* `Decimal.Near` — a double is well within half a unit of a decimal with so many digits.

## Main results

* `Decimal.ofNumber_bounds` — a double between two decimals is stored between them.
* `Decimal.ofNumber_of_near` — a double near a decimal is stored as it.
-/

namespace Binary64

/-- The shortest decimal of a double rounds to it, so it is no farther than one rounding. -/
theorem abs_val_sub_shortest_le (x : Binary64) :
    |x.val - x.shortest| ≤ unitRoundoff * |x.shortest| := by
  rw [shortest]
  cases h : (List.range 21).find? fun k => ofRat (nearestDecimal k x.val) = x with
  | none =>
    rw [Option.elim_none, sub_self, abs_zero]
    exact mul_nonneg unitRoundoff_pos.le (abs_nonneg _)
  | some k =>
    have hround : ofRat (nearestDecimal k x.val) = x := by simpa using List.find?_some h
    rw [Option.elim_some]
    calc |x.val - nearestDecimal k x.val|
        = |round (nearestDecimal k x.val) - nearestDecimal k x.val| := by
          rw [← val_ofRat (nearestDecimal k x.val), hround]
      _ ≤ unitRoundoff * |nearestDecimal k x.val| := abs_round_sub_le _

end Binary64

namespace Decimal

variable {p s : ℕ}

/-! ### Rounding halves away from zero -/

theorem roundHalfAway_of_near {q : ℚ} {n : ℤ} (h : |q - n| < 1 / 2) : roundHalfAway q = n := by
  obtain ⟨hlo, hhi⟩ := abs_lt.mp h
  rw [roundHalfAway]
  split_ifs
  · rw [Int.floor_eq_iff]
    constructor <;> linarith
  · have hfloor : ⌊-q + 1 / 2⌋ = -n := by
      rw [Int.floor_eq_iff]
      push_cast
      constructor <;> linarith
    rw [hfloor, neg_neg]

theorem le_roundHalfAway {q : ℚ} {n : ℤ} (h : n - 1 / 2 < q) : n ≤ roundHalfAway q := by
  have hround := (abs_le.mp (abs_roundHalfAway_sub_le q)).1
  have hlt : ((n - 1 : ℤ) : ℚ) < roundHalfAway q := by
    push_cast
    linarith
  have : n - 1 < roundHalfAway q := by exact_mod_cast hlt
  omega

theorem roundHalfAway_le {q : ℚ} {n : ℤ} (h : q < n + 1 / 2) : roundHalfAway q ≤ n := by
  have hround := (abs_le.mp (abs_roundHalfAway_sub_le q)).2
  have hlt : (roundHalfAway q : ℚ) < ((n + 1 : ℤ) : ℚ) := by
    push_cast
    linarith
  have : roundHalfAway q < n + 1 := by exact_mod_cast hlt
  omega

/-! ### Doubles near decimals -/

/-- In units of the last digit, one rounding moves a number by at most the roundoff. -/
theorem abs_round_mul_sub_le (q : ℚ) :
    |Binary64.round q * 10 ^ s - q * 10 ^ s| ≤ Binary64.unitRoundoff * |q * 10 ^ s| := by
  have hpos : (0 : ℚ) < 10 ^ s := by positivity
  rw [← sub_mul, abs_mul, abs_mul, abs_of_pos hpos, ← mul_assoc]
  exact mul_le_mul_of_nonneg_right (Binary64.abs_round_sub_le q) hpos.le

/-- In units of the last digit, the shortest decimal of a double is no farther than one rounding. -/
theorem abs_shortest_mul_sub_le_mul (x : Binary64) :
    |x.shortest * 10 ^ s - x.val * 10 ^ s| ≤
      Binary64.unitRoundoff * |x.shortest * 10 ^ s| := by
  have hpos : (0 : ℚ) < 10 ^ s := by positivity
  rw [← sub_mul, abs_mul, abs_mul, abs_of_pos hpos, ← mul_assoc, abs_sub_comm]
  exact mul_le_mul_of_nonneg_right (Binary64.abs_val_sub_shortest_le x) hpos.le

/-- The shortest decimal of a double that a column may hold is very near the double. -/
theorem abs_shortest_mul_sub_le {x : Binary64} (h : |x.val * 10 ^ s| ≤ 2 ^ 42 + 1) :
    |x.shortest * 10 ^ s - x.val * 10 ^ s| ≤ 1 / 2 ^ 9 := by
  have hscaled := abs_shortest_mul_sub_le_mul (s := s) x
  have htri := abs_sub_abs_le_abs_sub (x.shortest * 10 ^ s) (x.val * 10 ^ s)
  have hu : Binary64.unitRoundoff = 1 / 2 ^ 53 := rfl
  rw [hu] at hscaled
  linarith

/-- A double between two decimals, or a little off, is stored between them. -/
theorem ofNumber_bounds {x : Binary64} {lo hi : ℤ} (hlo : |lo| ≤ 2 ^ 42) (hhi : |hi| ≤ 2 ^ 42)
    (hlox : lo - 9 / 20 ≤ x.val * 10 ^ s) (hxhi : x.val * 10 ^ s ≤ hi + 9 / 20) :
    lo ≤ roundHalfAway (x.shortest * 10 ^ s) ∧ roundHalfAway (x.shortest * 10 ^ s) ≤ hi := by
  have hlo' : |(lo : ℚ)| ≤ 2 ^ 42 := by exact_mod_cast hlo
  have hhi' : |(hi : ℚ)| ≤ 2 ^ 42 := by exact_mod_cast hhi
  obtain ⟨hlow, -⟩ := abs_le.mp hlo'
  obtain ⟨-, hhigh⟩ := abs_le.mp hhi'
  have hsize : |x.val * 10 ^ s| ≤ 2 ^ 42 + 1 := abs_le.mpr ⟨by linarith, by linarith⟩
  obtain ⟨h₁, h₂⟩ := abs_le.mp (abs_shortest_mul_sub_le hsize)
  exact ⟨le_roundHalfAway (by linarith), roundHalfAway_le (by linarith)⟩

/-- A double near a decimal is stored as it. -/
theorem ofNumber_of_near {x : Binary64} {n : ℤ} (hn : |n| ≤ 2 ^ 42)
    (h : |x.val * 10 ^ s - n| ≤ 9 / 20) : (ofNumber x : Option (Decimal p s)) = ofScaled n := by
  obtain ⟨h₁, h₂⟩ := abs_le.mp h
  obtain ⟨hle, hge⟩ := ofNumber_bounds (x := x) (s := s) hn hn (by linarith) (by linarith)
  rw [ofNumber, le_antisymm hge hle]

/-- What a double is stored as, where it lies between two decimals, or a little off. -/
theorem scaled_bounds {x : Binary64} {d : Decimal p s} {lo hi : ℤ} (h : ofNumber x = some d)
    (hlo : |lo| ≤ 2 ^ 42) (hhi : |hi| ≤ 2 ^ 42) (hlox : lo - 9 / 20 ≤ x.val * 10 ^ s)
    (hxhi : x.val * 10 ^ s ≤ hi + 9 / 20) : lo ≤ d.scaled ∧ d.scaled ≤ hi := by
  rw [ofNumber, ofScaled_eq_some] at h
  rw [h]
  exact ofNumber_bounds hlo hhi hlox hxhi

/-- The size of what twelve digits hold. -/
theorem abs_scaled_lt (d : Decimal 12 s) : |d.scaled| < 2 ^ 40 :=
  d.bound.trans (by norm_num)

/-- A double nearest to a decimal of twelve digits is hardly off it. -/
theorem abs_toNumber_sub_le (d : Decimal 12 s) :
    |d.toNumber.val * 10 ^ s - d.scaled| ≤ 1 / 2 ^ 13 := by
  have hpos : (0 : ℚ) < 10 ^ s := by positivity
  have hsize : |(d.scaled : ℚ)| ≤ 2 ^ 40 := by exact_mod_cast d.abs_scaled_lt.le
  have h := abs_round_mul_sub_le (s := s) (d.scaled / 10 ^ s)
  rw [div_mul_cancel₀ _ hpos.ne'] at h
  calc |d.toNumber.val * 10 ^ s - d.scaled| ≤ Binary64.unitRoundoff * |(d.scaled : ℚ)| := h
    _ ≤ Binary64.unitRoundoff * 2 ^ 40 :=
        mul_le_mul_of_nonneg_left hsize Binary64.unitRoundoff_pos.le
    _ = 1 / 2 ^ 13 := by norm_num [Binary64.unitRoundoff]

/-- A double is near a decimal with so many digits after the point: a double that was computed from
such decimals, or is one. -/
def Near (s : ℕ) (x : Binary64) : Prop :=
  |x.val * 10 ^ s - Binary64.roundEven (x.val * 10 ^ s)| ≤ 2 / 5

instance (s : ℕ) (x : Binary64) : Decidable (Near s x) := inferInstanceAs (Decidable (_ ≤ _))

/-- A double that a column holds is not much larger than what the column holds. -/
theorem abs_val_mul_le {x : Binary64} {d : Decimal 12 s} (h : ofNumber x = some d) :
    |x.val * 10 ^ s| ≤ 2 ^ 40 + 1 := by
  rw [ofNumber, ofScaled_eq_some] at h
  have hsize : |(d.scaled : ℚ)| ≤ 2 ^ 40 := by exact_mod_cast d.abs_scaled_lt.le
  have hround := abs_roundHalfAway_sub_le (x.shortest * 10 ^ s)
  rw [← h, abs_sub_comm] at hround
  have hshort := abs_sub_abs_le_abs_sub (x.shortest * 10 ^ s) (d.scaled : ℚ)
  have hnear := abs_shortest_mul_sub_le_mul (s := s) x
  rw [abs_sub_comm] at hnear
  have htri := abs_sub_abs_le_abs_sub (x.val * 10 ^ s) (x.shortest * 10 ^ s)
  have hu : Binary64.unitRoundoff = 1 / 2 ^ 53 := rfl
  rw [hu] at hnear
  linarith

section Stored

variable {x : Binary64} {d : Decimal 12 s} {k : ℤ}

theorem abs_shortest_sub_lt (hx : |x.val * 10 ^ s - k| ≤ 2 / 5) (h : ofNumber x = some d) :
    |x.shortest * 10 ^ s - k| < 1 / 2 := by
  have hclose := abs_shortest_mul_sub_le ((abs_val_mul_le h).trans (by norm_num))
  have htri := abs_sub_le (x.shortest * 10 ^ s) (x.val * 10 ^ s) (k : ℚ)
  have : (1 : ℚ) / 2 ^ 9 < 1 / 10 := by norm_num
  linarith

/-- A double that is near a decimal, and is stored, is stored as that. -/
theorem scaled_of_near (hx : |x.val * 10 ^ s - k| ≤ 2 / 5) (h : ofNumber x = some d) :
    d.scaled = k := by
  have hclose := abs_shortest_sub_lt hx h
  rw [ofNumber, ofScaled_eq_some] at h
  rw [h]
  exact roundHalfAway_of_near hclose

/-- A column that is incremented by a double near a decimal moves by that. -/
theorem roundHalfAway_add_of_near (n : ℤ) (hx : |x.val * 10 ^ s - k| ≤ 2 / 5)
    (h : ofNumber x = some d) : roundHalfAway (n + x.shortest * 10 ^ s) = n + k := by
  refine roundHalfAway_of_near ?_
  push_cast
  rw [add_sub_add_left_eq_sub]
  exact abs_shortest_sub_lt hx h

end Stored

/-- The difference of two columns, computed in doubles. -/
theorem abs_toNumber_sub_toNumber_sub_le (d e : Decimal 12 s) :
    |(d.toNumber - e.toNumber).val * 10 ^ s - (d.scaled - e.scaled)| ≤ 1 / 2 ^ 10 := by
  have hd := d.abs_toNumber_sub_le
  have he := e.abs_toNumber_sub_le
  have hdsize : |(d.scaled : ℚ)| ≤ 2 ^ 40 := by exact_mod_cast d.abs_scaled_lt.le
  have hesize : |(e.scaled : ℚ)| ≤ 2 ^ 40 := by exact_mod_cast e.abs_scaled_lt.le
  have hround := abs_round_mul_sub_le (s := s) (d.toNumber.val - e.toNumber.val)
  rw [Binary64.val_sub]
  have hu : Binary64.unitRoundoff = 1 / 2 ^ 53 := rfl
  rw [hu] at hround
  have hdiff : |(d.toNumber.val - e.toNumber.val) * 10 ^ s - (d.scaled - e.scaled)| ≤ 1 / 2 ^ 12 := by
    have hsplit : (d.toNumber.val - e.toNumber.val) * 10 ^ s - (d.scaled - e.scaled) =
        (d.toNumber.val * 10 ^ s - d.scaled) - (e.toNumber.val * 10 ^ s - e.scaled) := by ring
    rw [hsplit]
    exact (abs_sub _ _).trans (by linarith)
  have hsize : |(d.toNumber.val - e.toNumber.val) * 10 ^ s| ≤ 2 ^ 42 := by
    have htri := abs_sub_abs_le_abs_sub ((d.toNumber.val - e.toNumber.val) * 10 ^ s)
      ((d.scaled : ℚ) - e.scaled)
    have hsub := abs_sub (d.scaled : ℚ) e.scaled
    linarith
  have htri := abs_sub_le (Binary64.round (d.toNumber.val - e.toNumber.val) * 10 ^ s)
    ((d.toNumber.val - e.toNumber.val) * 10 ^ s) ((d.scaled : ℚ) - e.scaled)
  linarith

/-- What is near a decimal is added to a column as that decimal. -/
theorem scaled_add_of_near {d e : Decimal 12 s} {x : Binary64} {k : ℤ} (hk : |k| ≤ 2 ^ 41)
    (hx : |x.val * 10 ^ s - k| ≤ 2 / 5) (h : ofNumber (d.toNumber + x) = some e) :
    e.scaled = d.scaled + k := by
  have hd := d.abs_toNumber_sub_le
  have hscaled := d.abs_scaled_lt.le
  have hk' : |(k : ℚ)| ≤ 2 ^ 41 := by exact_mod_cast hk
  have hdsize : |(d.scaled : ℚ)| ≤ 2 ^ 40 := by exact_mod_cast hscaled
  have hsum : |(d.toNumber.val + x.val) * 10 ^ s - (d.scaled + k)| ≤ 2 / 5 + 1 / 2 ^ 13 := by
    have hsplit : (d.toNumber.val + x.val) * 10 ^ s - (d.scaled + k) =
        (d.toNumber.val * 10 ^ s - d.scaled) + (x.val * 10 ^ s - k) := by ring
    rw [hsplit]
    exact (abs_add_le _ _).trans (by linarith)
  have hpos : (0 : ℚ) < 10 ^ s := by positivity
  have hsize : |(d.toNumber.val + x.val) * 10 ^ s| ≤ 2 ^ 42 := by
    have htri := abs_sub_abs_le_abs_sub ((d.toNumber.val + x.val) * 10 ^ s) ((d.scaled : ℚ) + k)
    have hadd := abs_add_le (d.scaled : ℚ) k
    linarith
  have hround : |(d.toNumber + x).val * 10 ^ s - (d.toNumber.val + x.val) * 10 ^ s| ≤ 1 / 2 ^ 11 := by
    have h := abs_round_mul_sub_le (s := s) (d.toNumber.val + x.val)
    rw [Binary64.val_add]
    have hu : Binary64.unitRoundoff = 1 / 2 ^ 53 := rfl
    rw [hu] at h
    linarith
  have hnear : |(d.toNumber + x).val * 10 ^ s - ((d.scaled + k : ℤ) : ℚ)| ≤ 9 / 20 := by
    push_cast
    have htri := abs_sub_le ((d.toNumber + x).val * 10 ^ s) ((d.toNumber.val + x.val) * 10 ^ s)
      ((d.scaled : ℚ) + k)
    linarith
  have hbound : |d.scaled + k| ≤ 2 ^ 42 := by
    have := abs_add_le d.scaled k
    omega
  rw [ofNumber_of_near hbound hnear, ofScaled_eq_some] at h
  exact h

/-- The nearest decimal of a double, computed through a whole number, is the column's when it is
stored. -/
theorem ofNumber_nearest {c n : Binary64} {d : Decimal 12 s} (hc : c.val = 10 ^ s)
    (h : ofNumber ((n * c).nearestInt / c) = some d) :
    |((n * c).nearestInt / c).val * 10 ^ s - d.scaled| ≤ 1 / 2 ^ 11 ∧
      |d.scaled - n.val * 10 ^ s| ≤ 1 / 2 + 1 / 2 ^ 11 := by
  have hpos : (0 : ℚ) < 10 ^ s := by positivity
  have hu : Binary64.unitRoundoff = 1 / 2 ^ 53 := rfl
  set k := ⌊(n * c).val + 1 / 2⌋ with hk
  have hval := abs_val_mul_le h
  -- the quotient is the whole number, rounded once
  have hquot : |((n * c).nearestInt / c).val * 10 ^ s - (n * c).nearestInt.val| ≤
      Binary64.unitRoundoff * |(n * c).nearestInt.val| := by
    have h := abs_round_mul_sub_le (s := s) ((n * c).nearestInt.val / c.val)
    rw [hc, div_mul_cancel₀ _ hpos.ne'] at h
    rwa [Binary64.val_div, hc]
  have hint : |(n * c).nearestInt.val| ≤ 2 ^ 40 + 2 := by
    have htri := abs_sub_abs_le_abs_sub (n * c).nearestInt.val
      (((n * c).nearestInt / c).val * 10 ^ s)
    rw [abs_sub_comm] at hquot
    rw [hu] at hquot
    linarith
  have hexact : (n * c).nearestInt.val = k := by
    refine Binary64.round_intCast k ?_
    have hround := Binary64.abs_round_sub_le (k : ℚ)
    have hround' : |(n * c).nearestInt.val - k| ≤ Binary64.unitRoundoff * |(k : ℚ)| := hround
    have htri := abs_sub_abs_le_abs_sub (k : ℚ) (n * c).nearestInt.val
    rw [abs_sub_comm] at hround'
    rw [hu] at hround'
    have hlt : |(k : ℚ)| ≤ 2 ^ 53 := by linarith
    exact_mod_cast hlt
  rw [hexact] at hquot hint
  have hclose : |((n * c).nearestInt / c).val * 10 ^ s - k| ≤ 1 / 2 ^ 11 := by
    rw [hu] at hquot
    linarith
  have hd : d.scaled = k := by
    have hkz : |k| ≤ 2 ^ 42 := by
      have : |(k : ℚ)| ≤ 2 ^ 42 := hint.trans (by norm_num)
      exact_mod_cast this
    rw [ofNumber_of_near hkz (hclose.trans (by norm_num)), ofScaled_eq_some] at h
    exact h
  rw [hd]
  refine ⟨hclose, ?_⟩
  have h₁ := Int.floor_le ((n * c).val + 1 / 2)
  have h₂ := Int.lt_floor_add_one ((n * c).val + 1 / 2)
  rw [← hk] at h₁ h₂
  have hhalf : |(k : ℚ) - (n * c).val| ≤ 1 / 2 := abs_le.mpr ⟨by linarith, by linarith⟩
  have hprod : |(n * c).val - n.val * 10 ^ s| ≤ Binary64.unitRoundoff * |n.val * 10 ^ s| := by
    rw [Binary64.val_mul, hc]
    exact Binary64.abs_round_sub_le _
  have hn : |n.val * 10 ^ s| ≤ 2 ^ 41 := by
    have htri := abs_sub_abs_le_abs_sub (n.val * 10 ^ s) (n * c).val
    have htri' := abs_sub_abs_le_abs_sub (n * c).val (k : ℚ)
    rw [abs_sub_comm] at hprod
    rw [abs_sub_comm] at hhalf
    rw [hu] at hprod
    linarith
  have htri := abs_sub_le (k : ℚ) (n * c).val (n.val * 10 ^ s)
  rw [hu] at hprod
  linarith

end Decimal
