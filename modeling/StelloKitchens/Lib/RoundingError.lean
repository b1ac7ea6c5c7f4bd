import StelloKitchens.Lib.Binary64

/-!
# Accumulated rounding errors

How far a computed number is from the exact one after a number of rounded operations, relative
to a weight that bounds the exact one: a sum of terms of either sign is weighed by the sum of
their sizes.

## Main definitions

* `Binary64.growth` — the factor `(1 + u)ᵐ - 1` of `m` roundings.
* `Binary64.Approx` — a number is within that factor of its weight.

## Main results

* `Binary64.Approx.add`, `Binary64.Approx.mul`, `Binary64.Approx.div` — one operation more.
* `Binary64.abs_weighted_average_sub_le` — a weighted average of two numbers.
* `Binary64.approx_foldl_add` — a sum taken term by term.
* `Binary64.nearestInt_eq_of_approx` — a number far from the halves rounds as the exact one does.
-/

namespace Binary64

/-- The factor by which `m` roundings can move a number of weight one. -/
def growth (m : ℕ) : ℚ := (1 + unitRoundoff) ^ m - 1

theorem one_le_pow_roundoff (m : ℕ) : 1 ≤ (1 + unitRoundoff) ^ m :=
  one_le_pow₀ (by linarith [unitRoundoff_pos])

theorem growth_nonneg (m : ℕ) : 0 ≤ growth m := sub_nonneg.mpr (one_le_pow_roundoff m)

theorem growth_mono {m n : ℕ} (h : m ≤ n) : growth m ≤ growth n :=
  sub_le_sub_right (pow_le_pow_right₀ (by linarith [unitRoundoff_pos]) h) 1

theorem growth_succ (m : ℕ) : growth (m + 1) = (1 + unitRoundoff) * growth m + unitRoundoff := by
  rw [growth, growth, pow_succ]
  ring

/-- The number approximates the exact one, whose size is at most the weight. -/
structure Approx (m : ℕ) (weight : ℚ) (x : Binary64) (exact : ℚ) : Prop where
  error : |x.val - exact| ≤ growth m * weight
  size : |exact| ≤ weight

namespace Approx

variable {m n : ℕ} {w v a b : ℚ} {x y : Binary64}

theorem weight_nonneg (h : Approx m w x a) : 0 ≤ w := (abs_nonneg a).trans h.size

theorem mono (h : Approx m w x a) (hmn : m ≤ n) : Approx n w x a :=
  ⟨h.error.trans (mul_le_mul_of_nonneg_right (growth_mono hmn) h.weight_nonneg), h.size⟩

theorem zero (m : ℕ) : Approx m 0 0 0 := ⟨by simp, by simp⟩

/-- One rounding of a rational near the exact number. -/
theorem round {q : ℚ} (herror : |q - a| ≤ growth m * w) (hsize : |a| ≤ w) :
    Approx (m + 1) w (ofRat q) a := by
  refine ⟨?_, hsize⟩
  have hround := abs_round_sub_le q
  have hu := unitRoundoff_pos.le
  have hq : |q| ≤ growth m * w + w := by
    have := abs_sub_abs_le_abs_sub q a
    linarith
  calc |(ofRat q).val - a| ≤ |(ofRat q).val - q| + |q - a| := abs_sub_le _ _ _
    _ ≤ unitRoundoff * (growth m * w + w) + growth m * w :=
        add_le_add (hround.trans (mul_le_mul_of_nonneg_left hq hu)) herror
    _ = growth (m + 1) * w := by
        rw [growth_succ]
        ring

theorem add (hx : Approx m w x a) (hy : Approx m v y b) : Approx (m + 1) (w + v) (x + y) (a + b) := by
  refine round ?_ ((abs_add_le a b).trans (add_le_add hx.size hy.size))
  have hsplit : x.val + y.val - (a + b) = (x.val - a) + (y.val - b) := by ring
  rw [hsplit, mul_add]
  exact (abs_add_le _ _).trans (add_le_add hx.error hy.error)

theorem sub (hx : Approx m w x a) (hy : Approx m v y b) : Approx (m + 1) (w + v) (x - y) (a - b) := by
  refine round ?_ ((abs_sub a b).trans (add_le_add hx.size hy.size))
  have hsplit : x.val - y.val - (a - b) = (x.val - a) - (y.val - b) := by ring
  rw [hsplit, mul_add]
  exact (abs_sub _ _).trans (add_le_add hx.error hy.error)

/-- A product with an exact number. -/
theorem mul (hx : Approx m w x a) (y : Binary64) :
    Approx (m + 1) (w * |y.val|) (x * y) (a * y.val) := by
  refine round ?_ ?_
  · rw [← sub_mul, abs_mul, ← mul_assoc]
    exact mul_le_mul_of_nonneg_right hx.error (abs_nonneg _)
  · rw [abs_mul]
    exact mul_le_mul_of_nonneg_right hx.size (abs_nonneg _)

/-- A quotient by an exact number. -/
theorem div (hx : Approx m w x a) (y : Binary64) :
    Approx (m + 1) (w / |y.val|) (x / y) (a / y.val) := by
  refine round ?_ ?_
  · rw [← sub_div, abs_div, ← mul_div_assoc]
    exact div_le_div_of_nonneg_right hx.error (abs_nonneg _)
  · rw [abs_div]
    exact div_le_div_of_nonneg_right hx.size (abs_nonneg _)

end Approx

/-- A number approximates itself. -/
theorem approx_self (x : Binary64) : Approx 0 |x.val| x x.val := ⟨by simp [growth], le_rfl⟩

/-- A weighted average of two numbers, by weights that are not negative, is off by little against
the larger of them. -/
theorem abs_weighted_average_sub_le {a b x y : Binary64} (ha : 0 ≤ a.val) (hb : 0 ≤ b.val)
    (hsum : 0 < a.val + b.val) {M : ℚ} (hx : |x.val| ≤ M) (hy : |y.val| ≤ M) :
    |((a * x + b * y) / (a + b)).val -
      (a.val * x.val + b.val * y.val) / (a.val + b.val)| ≤ M / 2 ^ 49 := by
  have hu : unitRoundoff = 1 / 2 ^ 53 := rfl
  have hM : 0 ≤ M := (abs_nonneg _).trans hx
  set S := a.val + b.val with hS
  set T := a.val * x.val + b.val * y.val with hT
  set n := (a + b).val with hn
  have hround : |n - S| ≤ unitRoundoff * S := by
    have h := abs_round_sub_le S
    rwa [abs_of_pos hsum] at h
  have hhalf : S / 2 ≤ n := by
    have h := (abs_le.mp hround).1
    rw [hu] at h
    linarith
  have hnpos : 0 < n := by linarith
  -- the products and their sum weigh at most `M · S`
  have hweight : |a.val| * |x.val| + |b.val| * |y.val| ≤ M * S := by
    rw [abs_of_nonneg ha, abs_of_nonneg hb]
    have h₁ := mul_le_mul_of_nonneg_left hx ha
    have h₂ := mul_le_mul_of_nonneg_left hy hb
    rw [hS]
    linarith
  have happrox := ((((approx_self a).mul x).add ((approx_self b).mul y)).div (a + b))
  have hquot : (|a.val| * |x.val| + |b.val| * |y.val|) / |n| ≤ 2 * M := by
    rw [abs_of_pos hnpos, div_le_iff₀ hnpos]
    have h := mul_le_mul_of_nonneg_left hhalf hM
    linarith
  have hfirst : |((a * x + b * y) / (a + b)).val - T / n| ≤ growth 3 * (2 * M) :=
    happrox.error.trans (mul_le_mul_of_nonneg_left hquot (growth_nonneg 3))
  have hsecond : |T / n - T / S| ≤ 2 * unitRoundoff * M := by
    have hsize : |T| ≤ M * S := by
      refine (abs_add_le _ _).trans ?_
      rw [abs_mul, abs_mul]
      exact hweight
    have hdiff : T / n - T / S = T * (S - n) / (n * S) := by
      field_simp
    rw [hdiff, abs_div, abs_mul, abs_of_pos (mul_pos hnpos hsum), div_le_iff₀ (mul_pos hnpos hsum),
      abs_sub_comm S n]
    calc |T| * |n - S| ≤ M * S * (unitRoundoff * S) :=
          mul_le_mul hsize hround (abs_nonneg _) (mul_nonneg hM hsum.le)
      _ = 2 * unitRoundoff * M * (S / 2 * S) := by ring
      _ ≤ 2 * unitRoundoff * M * (n * S) := by
          refine mul_le_mul_of_nonneg_left (mul_le_mul_of_nonneg_right hhalf hsum.le) ?_
          exact mul_nonneg (mul_nonneg (by norm_num) unitRoundoff_pos.le) hM
  have hgrowth : growth 3 * 2 + 2 * unitRoundoff ≤ 1 / 2 ^ 49 := by
    norm_num [growth, unitRoundoff]
  calc |((a * x + b * y) / (a + b)).val - T / S|
      ≤ |((a * x + b * y) / (a + b)).val - T / n| + |T / n - T / S| := abs_sub_le _ _ _
    _ ≤ (growth 3 * 2 + 2 * unitRoundoff) * M := by linarith
    _ ≤ 1 / 2 ^ 49 * M := mul_le_mul_of_nonneg_right hgrowth hM
    _ = M / 2 ^ 49 := by ring

/-- A sum taken term by term, each term off by at most `m` roundings. -/
theorem approx_foldl_add {ι : Type*} (f : ι → Binary64) (exact : ι → ℚ) {m : ℕ} (is : List ι)
    (h : ∀ i ∈ is, Approx m |exact i| (f i) (exact i)) :
    Approx (m + is.length) (is.map fun i => |exact i|).sum (is.foldl (fun s i => s + f i) 0)
      (is.map exact).sum := by
  have hfrom : ∀ (is : List ι) (k : ℕ) (s : Binary64) (a w : ℚ), m ≤ k → Approx k w s a →
      (∀ i ∈ is, Approx m |exact i| (f i) (exact i)) →
      Approx (k + is.length) (w + (is.map fun i => |exact i|).sum)
        (is.foldl (fun s i => s + f i) s) (a + (is.map exact).sum) := by
    intro is
    induction is with
    | nil =>
      intro k s a w _ hs _
      simpa using hs
    | cons i is ih =>
      intro k s a w hk hs h
      rw [List.forall_mem_cons] at h
      have hstep := hs.add (h.1.mono hk)
      have hrest := ih (k + 1) _ _ _ (by omega) hstep h.2
      rw [List.map_cons, List.map_cons, List.sum_cons, List.sum_cons, List.length_cons,
        ← add_assoc, ← add_assoc, Nat.add_right_comm, ← add_assoc]
      exact hrest
  simpa using hfrom is m 0 0 0 le_rfl (Approx.zero m) h

/-- Two numbers near one rational that is farther than that from every half round alike. -/
theorem nearestInt_eq_of_near {x y : Binary64} {a ε : ℚ} (hx : |x.val - a| ≤ ε)
    (hy : |y.val - a| ≤ ε) (hclear : ∀ k : ℤ, ε < |a - (k + 1 / 2)|) :
    x.nearestInt = y.nearestInt := by
  have hfloor : ∀ z : Binary64, |z.val - a| ≤ ε → ⌊z.val + 1 / 2⌋ = ⌊a + 1 / 2⌋ := by
    intro z hz
    obtain ⟨hlo, hhi⟩ := abs_le.mp hz
    have h₁ := Int.floor_le (a + 1 / 2)
    have h₂ := Int.lt_floor_add_one (a + 1 / 2)
    set n := ⌊a + 1 / 2⌋
    have hbelow := hclear (n - 1)
    have habove := hclear n
    push_cast at hbelow
    rw [abs_of_nonneg (by linarith)] at hbelow
    rw [abs_of_neg (by linarith)] at habove
    rw [Int.floor_eq_iff]
    constructor <;> linarith
  rw [nearestInt, nearestInt, hfloor x hx, hfloor y hy]

/-! ### Sums of whole numbers -/

/-- A sum of whole numbers is exact while their sizes add up to at most `2⁵³`. -/
theorem val_foldl_add_intCast {ι : Type*} (f : ι → Binary64) (g : ι → ℤ) (is : List ι)
    (h : ∀ i ∈ is, (f i).val = g i) (hsum : (is.map fun i => |g i|).sum ≤ 2 ^ 53) :
    (is.foldl (fun s i => s + f i) 0).val = ((is.map g).sum : ℤ) := by
  have hfrom : ∀ (is : List ι) (s : Binary64) (m : ℤ), s.val = m →
      (∀ i ∈ is, (f i).val = g i) → |m| + (is.map fun i => |g i|).sum ≤ 2 ^ 53 →
      (is.foldl (fun s i => s + f i) s).val = ((m + (is.map g).sum : ℤ) : ℚ) := by
    intro is
    induction is with
    | nil =>
      intro s m hs _ _
      simpa using hs
    | cons i is ih =>
      intro s m hs h hsum
      rw [List.forall_mem_cons] at h
      rw [List.map_cons, List.sum_cons] at hsum
      have hnonneg : 0 ≤ (is.map fun i => |g i|).sum := by
        apply List.sum_nonneg
        intro x hx
        obtain ⟨j, -, rfl⟩ := List.mem_map.mp hx
        exact abs_nonneg _
      have hle := abs_add_le m (g i)
      have hstep := val_add_intCast hs h.1 (by omega)
      have hrest := ih _ _ hstep h.2 (by omega)
      rw [List.map_cons, List.sum_cons, ← add_assoc]
      exact hrest
  have h0 := hfrom is 0 0 (by simp) h (by simpa using hsum)
  simpa using h0

end Binary64
