import StelloKitchens.Lib.Binary64

/-!
# Rounding keeps the order

Rounding to 53 significant bits never turns the order of two rationals around: within one binade
both are rounded to the same grid, and the binades are apart. What lies between whole numbers of at
most 53 bits therefore stays between them.

## Main results

* `Binary64.round_mono` — rounding is monotone.
* `Binary64.abs_round_le` — a bound that is a whole number of at most 53 bits survives rounding.
-/

namespace Binary64

theorem floor_le_roundEven (q : ℚ) : ⌊q⌋ ≤ roundEven q := by
  unfold roundEven
  split_ifs <;> omega

theorem roundEven_le_floor_add_one (q : ℚ) : roundEven q ≤ ⌊q⌋ + 1 := by
  unfold roundEven
  split_ifs <;> omega

theorem roundEven_mono {p q : ℚ} (h : p ≤ q) : roundEven p ≤ roundEven q := by
  rcases lt_or_eq_of_le (Int.floor_le_floor h) with hlt | heq
  · exact (roundEven_le_floor_add_one p).trans (Int.add_one_le_of_lt hlt |>.trans (floor_le_roundEven q))
  · unfold roundEven
    rw [heq]
    split_ifs <;> first | omega | (exfalso; linarith)

theorem le_roundEven {n : ℤ} {q : ℚ} (h : n ≤ q) : n ≤ roundEven q := by
  rw [← roundEven_intCast n]
  exact roundEven_mono h

theorem roundEven_le {n : ℤ} {q : ℚ} (h : q ≤ n) : roundEven q ≤ n := by
  rw [← roundEven_intCast n]
  exact roundEven_mono h

/-- The rounding of a positive number stays in its binade, or at its upper end. -/
theorem round_mem_binade {q : ℚ} (hq : 0 < q) :
    2 ^ Int.log 2 q ≤ round q ∧ round q ≤ 2 ^ (Int.log 2 q + 1) := by
  have habs : |q| = q := abs_of_pos hq
  have hlo := zpow_ulpExp_le hq.ne'
  have hhi := lt_zpow_ulpExp q
  rw [habs] at hlo hhi
  have hpos : (0 : ℚ) < 2 ^ ulpExp q := by positivity
  have h52 : (2 : ℚ) ^ Int.log 2 q = 2 ^ 52 * 2 ^ ulpExp q := by
    rw [ulpExp, habs, ← zpow_natCast, ← zpow_add₀ (by norm_num)]
    congr 1
    push_cast
    ring
  have h53 : (2 : ℚ) ^ (Int.log 2 q + 1) = 2 ^ 53 * 2 ^ ulpExp q := by
    rw [zpow_add_one₀ (by norm_num), h52]
    ring
  rw [h52, h53, round, if_neg hq.ne']
  constructor
  · refine mul_le_mul_of_nonneg_right ?_ hpos.le
    have hle : (2 : ℚ) ^ 52 ≤ q / 2 ^ ulpExp q := (le_div_iff₀ hpos).mpr (by linarith)
    have hround : ((2 ^ 52 : ℤ)) ≤ roundEven (q / 2 ^ ulpExp q) := le_roundEven (by push_cast; exact hle)
    exact_mod_cast hround
  · refine mul_le_mul_of_nonneg_right ?_ hpos.le
    have hle : q / 2 ^ ulpExp q ≤ 2 ^ 53 := (div_le_iff₀ hpos).mpr (by linarith)
    have hround : roundEven (q / 2 ^ ulpExp q) ≤ (2 ^ 53 : ℤ) := roundEven_le (by push_cast; exact hle)
    exact_mod_cast hround

/-- Rounding keeps the order. -/
theorem round_mono {p q : ℚ} (h : p ≤ q) : round p ≤ round q := by
  have hpos : ∀ {p q : ℚ}, 0 < p → p ≤ q → round p ≤ round q := by
    intro p q hp h
    have hq := hp.trans_le h
    rcases lt_or_eq_of_le (Int.log_mono_right (b := 2) hp h) with hlt | heq
    · refine (round_mem_binade hp).2.trans (le_trans ?_ (round_mem_binade hq).1)
      exact zpow_le_zpow_right₀ (by norm_num) hlt
    · have hulp : ulpExp p = ulpExp q := by
        rw [ulpExp, ulpExp, abs_of_pos hp, abs_of_pos hq, heq]
      rw [round, round, if_neg hp.ne', if_neg hq.ne', hulp]
      refine mul_le_mul_of_nonneg_right ?_ (by positivity)
      exact_mod_cast roundEven_mono (div_le_div_of_nonneg_right h (by positivity))
  rcases lt_or_ge 0 p with hp | hp
  · exact hpos hp h
  · rcases le_or_gt 0 q with hq | hq
    · have hneg := round_nonneg (neg_nonneg.mpr hp)
      rw [round_neg] at hneg
      exact (neg_nonneg.mp hneg).trans (round_nonneg hq)
    · have hle := hpos (neg_pos.mpr hq) (neg_le_neg h)
      rw [round_neg, round_neg] at hle
      exact neg_le_neg_iff.mp hle

/-- A bound that is itself not moved by rounding stays a bound. -/
theorem abs_round_le {q : ℚ} {n : ℤ} (h : |q| ≤ n) (hn : n ≤ 2 ^ 53) : |round q| ≤ n := by
  have hn0 : (0 : ℚ) ≤ n := (abs_nonneg q).trans h
  have habs : |n| ≤ 2 ^ 53 := by
    rw [abs_of_nonneg (by exact_mod_cast hn0)]
    exact hn
  obtain ⟨hlo, hhi⟩ := abs_le.mp h
  refine abs_le.mpr ⟨?_, ?_⟩
  · have hround := round_mono hlo
    rwa [round_neg, round_intCast n habs] at hround
  · have hround := round_mono hhi
    rwa [round_intCast n habs] at hround

/-! ### Rounded operations -/

section Operations

variable {x x' y y' : Binary64}

theorem add_mono (hx : x ≤ x') (hy : y ≤ y') : x + y ≤ x' + y' :=
  round_mono (add_le_add hx hy)

theorem sub_antitone (h : y ≤ y') (x : Binary64) : x - y' ≤ x - y :=
  round_mono (sub_le_sub_left (le_def.mp h) x.val)

theorem mul_mono_left (h : x ≤ x') (hy : 0 ≤ y) : x * y ≤ x' * y :=
  round_mono (mul_le_mul_of_nonneg_right h (nonneg_iff.mp hy))

theorem mul_mono_right (h : y ≤ y') (hx : 0 ≤ x) : x * y ≤ x * y' :=
  round_mono (mul_le_mul_of_nonneg_left h (nonneg_iff.mp hx))

theorem div_mono (h : x ≤ x') (hy : 0 ≤ y) : x / y ≤ x' / y :=
  round_mono (div_le_div_of_nonneg_right h (nonneg_iff.mp hy))

theorem nearestInt_mono (h : x ≤ x') : x.nearestInt ≤ x'.nearestInt := by
  refine round_mono ?_
  exact_mod_cast Int.floor_le_floor (add_le_add_left (le_def.mp h) (1 / 2))

/-- A sum of numbers that are not negative is no less than either. -/
theorem le_add_left (x : Binary64) (hy : 0 ≤ y) : x ≤ x + y := by
  have h := round_mono (le_add_of_nonneg_right (a := x.val) (nonneg_iff.mp hy))
  rwa [x.representable] at h

theorem le_add_right (hx : 0 ≤ x) (y : Binary64) : y ≤ x + y := by
  have h := round_mono (le_add_of_nonneg_left (a := y.val) (nonneg_iff.mp hx))
  rwa [y.representable] at h

end Operations

/-- The nearest integer of a bounded number is what it says, and keeps the bound. -/
theorem val_nearestInt_of_abs_le {x : Binary64} {n : ℤ} (h : |x.val| ≤ n) (hn : n ≤ 2 ^ 53) :
    x.nearestInt.val = ⌊x.val + 1 / 2⌋ ∧ |⌊x.val + 1 / 2⌋| ≤ n := by
  obtain ⟨hlo, hhi⟩ := abs_le.mp h
  have hfloor : |⌊x.val + 1 / 2⌋| ≤ n := by
    refine abs_le.mpr ⟨Int.le_floor.mpr (by push_cast; linarith), ?_⟩
    refine Int.lt_add_one_iff.mp (Int.floor_lt.mpr ?_)
    push_cast
    linarith
  exact ⟨val_ofRat_intCast (hfloor.trans hn), hfloor⟩

/-- Whole numbers that are not negative, added up in floating point, do not fall short of their
exact sum before it exceeds 53 bits. -/
theorem min_le_val_foldl_add {ι : Type*} (f : ι → Binary64) (g : ι → ℤ) (is : List ι)
    (h : ∀ i ∈ is, (f i).val = g i ∧ 0 ≤ g i) :
    ((min (is.map g).sum (2 ^ 53) : ℤ) : ℚ) ≤ (is.foldl (fun s i => s + f i) 0).val := by
  have hfrom : ∀ (is : List ι) (s : Binary64) (m : ℤ), s.val = m → 0 ≤ m →
      (∀ i ∈ is, (f i).val = g i ∧ 0 ≤ g i) →
      ((min (m + (is.map g).sum) (2 ^ 53) : ℤ) : ℚ) ≤ (is.foldl (fun s i => s + f i) s).val := by
    intro is
    induction is with
    | nil =>
      intro s m hs _ _
      rw [List.map_nil, List.sum_nil, add_zero, List.foldl_nil, hs]
      exact_mod_cast min_le_left _ _
    | cons i is ih =>
      intro s m hs hm h
      obtain ⟨⟨hi, hi0⟩, h⟩ := List.forall_mem_cons.mp h
      rw [List.map_cons, List.sum_cons, ← add_assoc, List.foldl_cons]
      by_cases hsmall : m + g i ≤ 2 ^ 53
      · exact ih _ _ (val_add_intCast hs hi (by rw [abs_of_nonneg (by omega)]; exact hsmall))
          (by omega) h
      · -- from here on the sum is beyond the whole numbers that are added exactly
        obtain ⟨n, hn⟩ := round_isInt (m + g i)
        have hval : (s + f i).val = n := by
          rw [val_add, hs, hi, ← Int.cast_add, hn]
        have hlarge : (2 ^ 53 : ℤ) ≤ n := by
          have hle : ((2 ^ 53 : ℤ) : ℚ) ≤ ((m + g i : ℤ) : ℚ) := by exact_mod_cast (not_le.mp hsmall).le
          have hround := round_mono hle
          rw [round_intCast _ (by norm_num), hn] at hround
          exact_mod_cast hround
        have hrest : 0 ≤ (is.map g).sum := List.sum_nonneg fun x hx => by
          obtain ⟨j, hj, rfl⟩ := List.mem_map.mp hx
          exact (h j hj).2
        have hfold := ih _ _ hval (by omega) h
        rw [min_eq_right (by omega)] at hfold ⊢
        exact hfold
  have hzero := hfrom is 0 0 (by simp) le_rfl h
  rwa [zero_add] at hzero

end Binary64
