import StelloKitchens.Lib.RoundingOrder
import StelloKitchens.Shared.Amount
import StelloKitchens.Shared.Billing

/-!
# The figures of a bill

The figures of a bill are worked out in whole paise, in doubles, and returned in rupees. What is
rounded is rounded in one direction for all bills, so that a larger discount never makes for a larger
total. The sums are exact as long as doubles tell whole paise apart, far beyond a trillion rupees.

## Main definitions

* `billTaxable`, `billCharge`, `billTax`, `billPreRound`, `billPayable` — the figures in paise.
* `BillTotals.AddsUp` — the figures add up, in paise.

## Main results

* `computeBill_figures` — what holds of the figures of every bill.
-/

namespace StelloKitchens

/-! ### Zero -/

theorem zero_mul_binary64 (x : Binary64) : 0 * x = 0 := by
  apply Binary64.ext
  rw [Binary64.val_mul, Binary64.val_zero, zero_mul, Binary64.round_zero]

theorem zero_div_binary64 (x : Binary64) : 0 / x = 0 := by
  apply Binary64.ext
  rw [Binary64.val_div, Binary64.val_zero, zero_div, Binary64.round_zero]

theorem nearestInt_zero : (0 : Binary64).nearestInt = 0 := nearestInt_of_int (m := 0) (by simp)

/-! ### The figures in paise -/

/-- What remains of the subtotal after the discount. -/
def billTaxable (lines : List MoneyLine) (discountRupees : Binary64) : Binary64 :=
  subtotalPaise lines - discountPaise (subtotalPaise lines) discountRupees

def billCharge (lines : List MoneyLine) (opts : BillOptions) : Binary64 :=
  serviceChargePaise (billTaxable lines opts.discountRupees) opts.serviceCharge

def billTax (lines : List MoneyLine) (opts : BillOptions) : Binary64 :=
  taxPaise (rawTaxPaise lines) (taxBasePaise (billTaxable lines opts.discountRupees)
    (billCharge lines opts) opts.serviceCharge) (subtotalPaise lines)

def billPreRound (lines : List MoneyLine) (opts : BillOptions) : Binary64 :=
  billTaxable lines opts.discountRupees + billCharge lines opts + billTax lines opts

def billPayable (lines : List MoneyLine) (opts : BillOptions) : Binary64 :=
  if opts.roundOff then (billPreRound lines opts / 100).nearestInt * 100 else billPreRound lines opts

theorem computeBill_eq (lines : List MoneyLine) (opts : BillOptions) :
    computeBill lines opts =
      { subtotal := fromPaise (subtotalPaise lines)
        discountAmount := fromPaise (discountPaise (subtotalPaise lines) opts.discountRupees)
        serviceChargeAmount := fromPaise (billCharge lines opts)
        taxAmount := fromPaise (billTax lines opts)
        roundOff := fromPaise (billPayable lines opts - billPreRound lines opts)
        totalBeforeRoundOff := fromPaise (billPreRound lines opts)
        total := fromPaise (billPayable lines opts) } := rfl

/-! ### Whole paise -/

theorem val_discountPaise {s d : Binary64} {m : ℤ} (hs : s.val = m) :
    ∃ k : ℤ, (discountPaise s d).val = k ∧ k ≤ m ∧ (0 ≤ m → 0 ≤ k) ∧ (m < 0 → k = m) := by
  have hle : (discountPaise s d).val ≤ s.val := discountPaise_le s d
  unfold discountPaise at hle ⊢
  rcases le_total (max 0 (toPaise d)) s with h | h
  · rw [min_eq_left h] at hle ⊢
    have hnonneg : 0 ≤ (max 0 (toPaise d)).val := Binary64.nonneg_iff.mp (le_max_left _ _)
    obtain ⟨k, hk⟩ : ∃ k : ℤ, (max 0 (toPaise d)).val = k := by
      rcases le_total 0 (toPaise d) with h | h
      · rw [max_eq_right h]
        exact Binary64.nearestInt_isInt _
      · rw [max_eq_left h]
        exact ⟨0, by simp⟩
    rw [hk] at hle hnonneg
    rw [hs] at hle
    have hle' : k ≤ m := by exact_mod_cast hle
    have hnonneg' : 0 ≤ k := by exact_mod_cast hnonneg
    exact ⟨k, hk, hle', fun _ => hnonneg', fun hm => by omega⟩
  · rw [min_eq_right h]
    exact ⟨m, hs, le_refl _, fun h => h, fun _ => rfl⟩

theorem val_serviceChargePaise {taxable : Binary64} (sc : Option ServiceCharge)
    (h : 0 ≤ taxable) : ∃ k : ℤ, (serviceChargePaise taxable sc).val = k ∧ 0 ≤ k ∧
      (taxable = 0 → k = 0) := by
  have hnonneg : 0 ≤ serviceChargePaise taxable sc := by
    unfold serviceChargePaise
    split
    · exact le_refl _
    · split
      · exact Binary64.zero_le_nearestInt (Binary64.zero_le_div
          (Binary64.zero_le_mul h (le_of_lt ‹_›)) zero_le_hundred)
      · exact le_refl _
  have hint : ∃ k : ℤ, (serviceChargePaise taxable sc).val = k := by
    unfold serviceChargePaise
    split
    · exact ⟨0, by simp⟩
    · split
      · exact Binary64.nearestInt_isInt _
      · exact ⟨0, by simp⟩
  obtain ⟨k, hk⟩ := hint
  have hk0 := Binary64.nonneg_iff.mp hnonneg
  rw [hk] at hk0
  refine ⟨k, hk, by exact_mod_cast hk0, fun hzero => ?_⟩
  have hnone : serviceChargePaise 0 sc = 0 := by
    unfold serviceChargePaise
    split
    · rfl
    · rw [zero_mul_binary64, zero_div_binary64, nearestInt_zero, ite_self]
  rw [hzero, hnone, Binary64.val_zero] at hk
  exact_mod_cast hk.symm

theorem val_subtotalPaise {lines : List MoneyLine}
    (hlines : ∀ l ∈ lines, ∃ m : ℤ, l.lineTotalPaise.val = m) :
    ∃ m : ℤ, (subtotalPaise lines).val = m := by
  refine List.foldlRecOn lines _ (motive := fun s : Binary64 => ∃ m : ℤ, s.val = m)
    ⟨0, by simp⟩ fun s ⟨m, hm⟩ l hl => ?_
  obtain ⟨k, hk⟩ := hlines l hl
  rw [Binary64.val_add, hm, hk, ← Int.cast_add]
  exact Binary64.round_isInt _

theorem exists_billPayable {lines : List MoneyLine} {opts : BillOptions}
    (hpre : ∃ m : ℤ, (billPreRound lines opts).val = m) :
    ∃ m : ℤ, (billPayable lines opts).val = m := by
  unfold billPayable
  split
  · obtain ⟨k, hk⟩ := Binary64.nearestInt_isInt (billPreRound lines opts / 100)
    rw [Binary64.val_mul, hk, val_hundred]
    exact_mod_cast Binary64.round_isInt (k * 100)
  · exact hpre

theorem isInt_add {x y : Binary64} (hx : ∃ m : ℤ, x.val = m) (hy : ∃ m : ℤ, y.val = m) :
    ∃ m : ℤ, (x + y).val = m := by
  obtain ⟨m, hm⟩ := hx
  obtain ⟨k, hk⟩ := hy
  rw [Binary64.val_add, hm, hk, ← Int.cast_add]
  exact Binary64.round_isInt _

theorem isInt_sub {x y : Binary64} (hx : ∃ m : ℤ, x.val = m) (hy : ∃ m : ℤ, y.val = m) :
    ∃ m : ℤ, (x - y).val = m := by
  obtain ⟨m, hm⟩ := hx
  obtain ⟨k, hk⟩ := hy
  rw [Binary64.val_sub, hm, hk, ← Int.cast_sub]
  exact Binary64.round_isInt _

/-- The figures that a bill keeps. -/
def BillTotals.figures (t : BillTotals) : List Binary64 :=
  [t.subtotal, t.discountAmount, t.serviceChargeAmount, t.taxAmount, t.roundOff, t.total]

/-- The figures of a bill are whole paise, given in rupees. -/
theorem whole_figures {lines : List MoneyLine} (opts : BillOptions)
    (hlines : ∀ l ∈ lines, ∃ m : ℤ, l.lineTotalPaise.val = m) :
    ∀ x ∈ (computeBill lines opts).figures, ∃ (p : Binary64) (m : ℤ), x = fromPaise p ∧ p.val = m := by
  obtain ⟨s, hs⟩ := val_subtotalPaise hlines
  obtain ⟨d, hd, -⟩ := val_discountPaise (d := opts.discountRupees) hs
  obtain ⟨c, hc, -⟩ := val_serviceChargePaise opts.serviceCharge
    (Binary64.zero_le_sub (discountPaise_le (subtotalPaise lines) opts.discountRupees))
  have htax : ∃ m : ℤ, (billTax lines opts).val = m := by
    unfold billTax taxPaise
    split
    · exact Binary64.nearestInt_isInt _
    · exact ⟨0, by simp⟩
  have hpre : ∃ m : ℤ, (billPreRound lines opts).val = m :=
    isInt_add (isInt_add (isInt_sub ⟨s, hs⟩ ⟨d, hd⟩) ⟨c, hc⟩) htax
  have hpayable := exists_billPayable hpre
  obtain ⟨r, hr⟩ := isInt_sub hpayable hpre
  obtain ⟨t, ht⟩ := htax
  obtain ⟨p, hp⟩ := hpayable
  rw [computeBill_eq]
  simp only [BillTotals.figures, List.forall_mem_cons, List.not_mem_nil, false_imp_iff,
    implies_true, and_true]
  exact ⟨⟨_, s, rfl, hs⟩, ⟨_, d, rfl, hd⟩, ⟨_, c, rfl, hc⟩, ⟨_, t, rfl, ht⟩, ⟨_, r, rfl, hr⟩,
    ⟨_, p, rfl, hp⟩⟩

/-- A line of a bill: whole paise that are not negative, and a rate in percent. -/
structure MoneyLine.Billable (l : MoneyLine) : Prop where
  paise : WholePaise l.lineTotalPaise
  rate_nonneg : 0 ≤ l.taxRatePercent
  rate_le : l.taxRatePercent ≤ 100

theorem WholePaise.nonneg {x : Binary64} (h : WholePaise x) : 0 ≤ x := by
  obtain ⟨m, hm, hx⟩ := h
  rw [Binary64.nonneg_iff, hx]
  exact_mod_cast hm

theorem wholePaise_nearestInt {x : Binary64} (h : 0 ≤ x) : WholePaise x.nearestInt := by
  obtain ⟨m, hm⟩ := Binary64.nearestInt_isInt x
  refine ⟨m, ?_, hm⟩
  have hnonneg := Binary64.nonneg_iff.mp (Binary64.zero_le_nearestInt h)
  rw [hm] at hnonneg
  exact_mod_cast hnonneg

theorem WholePaise.sub {x y : Binary64} (hx : WholePaise x) (hy : WholePaise y) (h : y ≤ x) :
    WholePaise (x - y) := by
  obtain ⟨m, -, hxm⟩ := hx
  obtain ⟨n, -, hyn⟩ := hy
  obtain ⟨k, hk⟩ := Binary64.round_isInt (m - n)
  have hval : (x - y).val = k := by
    rw [Binary64.val_sub, hxm, hyn, ← Int.cast_sub, hk]
  refine ⟨k, ?_, hval⟩
  have hnonneg := Binary64.nonneg_iff.mp (Binary64.zero_le_sub h)
  rw [hval] at hnonneg
  exact_mod_cast hnonneg

section Figures

variable {lines : List MoneyLine} (hlines : ∀ l ∈ lines, l.Billable) (opts : BillOptions)

include hlines

theorem wholePaise_subtotal : WholePaise (subtotalPaise lines) :=
  wholePaise_foldl _ lines fun l hl => (hlines l hl).paise

theorem zero_le_rawTax : 0 ≤ rawTaxPaise lines :=
  zero_le_rawTaxPaise (fun l hl => (hlines l hl).paise.nonneg) fun l hl => (hlines l hl).rate_nonneg

theorem wholePaise_discount (d : Binary64) : WholePaise (discountPaise (subtotalPaise lines) d) := by
  have hmax : WholePaise (max 0 (toPaise d)) := by
    rcases le_total 0 (toPaise d) with h | h
    · rw [max_eq_right h]
      obtain ⟨m, hm⟩ := Binary64.nearestInt_isInt (d * 100)
      refine ⟨m, ?_, hm⟩
      have hnonneg := Binary64.nonneg_iff.mp h
      rw [toPaise, hm] at hnonneg
      exact_mod_cast hnonneg
    · rw [max_eq_left h]
      exact wholePaise_zero
  unfold discountPaise
  rcases le_total (max 0 (toPaise d)) (subtotalPaise lines) with h | h
  · rwa [min_eq_left h]
  · rw [min_eq_right h]
    exact wholePaise_subtotal hlines

theorem wholePaise_taxable (d : Binary64) : WholePaise (billTaxable lines d) :=
  (wholePaise_subtotal hlines).sub (wholePaise_discount hlines d) (discountPaise_le _ _)

theorem wholePaise_charge : WholePaise (billCharge lines opts) := by
  unfold billCharge serviceChargePaise
  cases opts.serviceCharge with
  | none => exact wholePaise_zero
  | some sc =>
    dsimp only
    split
    · exact wholePaise_nearestInt (Binary64.zero_le_div (Binary64.zero_le_mul
        (wholePaise_taxable hlines _).nonneg (le_of_lt ‹_›)) zero_le_hundred)
    · exact wholePaise_zero

theorem zero_le_taxBase : 0 ≤ taxBasePaise (billTaxable lines opts.discountRupees)
    (billCharge lines opts) opts.serviceCharge := by
  unfold taxBasePaise
  refine Binary64.zero_le_add (wholePaise_taxable hlines _).nonneg ?_
  split
  · exact (wholePaise_charge hlines opts).nonneg
  · exact le_rfl

theorem wholePaise_tax : WholePaise (billTax lines opts) := by
  unfold billTax taxPaise
  split
  · exact wholePaise_nearestInt (Binary64.zero_le_div (Binary64.zero_le_mul (zero_le_rawTax hlines)
      (zero_le_taxBase hlines opts)) (wholePaise_subtotal hlines).nonneg)
  · exact wholePaise_zero

theorem wholePaise_preRound : WholePaise (billPreRound lines opts) :=
  ((wholePaise_taxable hlines _).add (wholePaise_charge hlines opts)).add (wholePaise_tax hlines opts)

theorem zero_le_payable : 0 ≤ billPayable lines opts := by
  unfold billPayable
  split
  · exact Binary64.zero_le_mul (Binary64.zero_le_nearestInt
      (Binary64.zero_le_div (wholePaise_preRound hlines opts).nonneg zero_le_hundred)) zero_le_hundred
  · exact (wholePaise_preRound hlines opts).nonneg

/-! ### Larger discounts -/

/-- A larger discount leaves no larger a total before it is rounded off. -/
theorem billPreRound_antitone {d d' : Binary64} (h : d ≤ d') (sc : Option ServiceCharge)
    (roundOff : Bool) :
    billPreRound lines ⟨d', sc, roundOff⟩ ≤ billPreRound lines ⟨d, sc, roundOff⟩ := by
  have htaxable : billTaxable lines d' ≤ billTaxable lines d := by
    refine Binary64.sub_antitone (min_le_min_right _ (max_le_max_left _ ?_)) _
    exact Binary64.nearestInt_mono (Binary64.mul_mono_left h zero_le_hundred)
  have hcharge : billCharge lines ⟨d', sc, roundOff⟩ ≤ billCharge lines ⟨d, sc, roundOff⟩ := by
    unfold billCharge serviceChargePaise
    cases sc with
    | none => exact le_rfl
    | some sc =>
      dsimp only
      split
      · exact Binary64.nearestInt_mono (Binary64.div_mono
          (Binary64.mul_mono_left htaxable (le_of_lt ‹_›)) zero_le_hundred)
      · exact le_rfl
  have hbase : taxBasePaise (billTaxable lines d') (billCharge lines ⟨d', sc, roundOff⟩) sc ≤
      taxBasePaise (billTaxable lines d) (billCharge lines ⟨d, sc, roundOff⟩) sc := by
    unfold taxBasePaise
    refine Binary64.add_mono htaxable ?_
    split
    · exact hcharge
    · exact le_rfl
  have htax : billTax lines ⟨d', sc, roundOff⟩ ≤ billTax lines ⟨d, sc, roundOff⟩ := by
    unfold billTax taxPaise
    split
    · exact Binary64.nearestInt_mono (Binary64.div_mono
        (Binary64.mul_mono_right hbase (zero_le_rawTax hlines)) (wholePaise_subtotal hlines).nonneg)
    · exact le_rfl
  exact Binary64.add_mono (Binary64.add_mono htaxable hcharge) htax

end Figures

/-! ### Rupees -/

theorem fromPaise_mono {x y : Binary64} (h : x ≤ y) : fromPaise x ≤ fromPaise y :=
  Binary64.div_mono (Binary64.nearestInt_mono h) zero_le_hundred

/-- A trillion rupees. -/
def trillion : Binary64 := .ofRat (10 ^ 12)

theorem val_trillion : trillion.val = 10 ^ 12 := by
  have h := Binary64.val_ofRat_intCast (m := 10 ^ 12) (by norm_num)
  exact_mod_cast h

/-- Up to a trillion rupees, the paise are few enough to be told apart. -/
theorem paise_le_of_rupees {x : Binary64} {m : ℤ} (hx : x.val = m) (hm : 0 ≤ m)
    (h : fromPaise x ≤ trillion) : m ≤ 2 ^ 47 := by
  have hmq : (0 : ℚ) ≤ m := by exact_mod_cast hm
  have hround := (abs_le.mp (Binary64.abs_round_sub_le (m / 100 : ℚ))).1
  rw [abs_of_nonneg (by positivity)] at hround
  have hle : Binary64.round (m / 100 : ℚ) ≤ 10 ^ 12 := by
    have h := Binary64.le_def.mp h
    rwa [fromPaise_of_int hx, Binary64.val_div, hx, val_hundred, val_trillion] at h
  have hu : Binary64.unitRoundoff * (m / 100 : ℚ) ≤ 1 / 4 * (m / 100) :=
    mul_le_mul_of_nonneg_right (by norm_num [Binary64.unitRoundoff]) (by positivity)
  have hq : (m : ℚ) ≤ 2 ^ 47 := by linarith
  exact_mod_cast hq

/-! ### The sums -/

/-- The figures add up, in paise. -/
structure BillTotals.AddsUp (t : BillTotals) : Prop where
  beforeRoundOff : (toPaise t.totalBeforeRoundOff).val = (toPaise t.subtotal).val -
    (toPaise t.discountAmount).val + (toPaise t.serviceChargeAmount).val + (toPaise t.taxAmount).val
  total : (toPaise t.total).val = (toPaise t.subtotal).val - (toPaise t.discountAmount).val +
    (toPaise t.serviceChargeAmount).val + (toPaise t.taxAmount).val + (toPaise t.roundOff).val

/-- The payable total is a whole number of rupees, at most 50 paise away. -/
structure BillTotals.RoundedOff (t : BillTotals) : Prop where
  whole : ∃ rupees : ℤ, t.total.val = rupees
  near : |(toPaise t.roundOff).val| ≤ 50

/-- A whole number of paise is rounded off to whole rupees at most 50 paise away. -/
theorem nearestInt_rupees {x : Binary64} {m : ℤ} (hx : x.val = m) (hm : |m| ≤ 2 ^ 47) :
    ∃ r : ℤ, (x / 100).nearestInt.val = r ∧ |r * 100 - m| ≤ 50 := by
  have hmq : |(m : ℚ)| ≤ 2 ^ 47 := by exact_mod_cast hm
  have hround := Binary64.abs_round_sub_le (m / 100 : ℚ)
  have hval : (x / 100).val = Binary64.round (m / 100 : ℚ) := by
    rw [Binary64.val_div, hx, val_hundred]
  have habs : |(m / 100 : ℚ)| = |(m : ℚ)| / 100 := by
    rw [abs_div]
    norm_num
  rw [habs] at hround
  -- the quotient is nearer to the exact one than a hundredth of a rupee
  have hnear : |(x / 100).val - m / 100| < 1 / 100 := by
    rw [hval]
    refine hround.trans_lt ?_
    have := mul_le_mul_of_nonneg_left hmq Binary64.unitRoundoff_pos.le
    have hu : Binary64.unitRoundoff * 2 ^ 47 < 1 := by norm_num [Binary64.unitRoundoff]
    linarith
  obtain ⟨hlo, hhi⟩ := abs_lt.mp hnear
  obtain ⟨hmlo, hmhi⟩ := abs_le.mp hmq
  obtain ⟨hnearest, -⟩ := Binary64.val_nearestInt_of_abs_le (x := x / 100) (n := 2 ^ 47)
    (abs_le.mpr ⟨by push_cast; linarith, by push_cast; linarith⟩) (by norm_num)
  refine ⟨⌊(x / 100).val + 1 / 2⌋, hnearest, ?_⟩
  have h₁ := Int.floor_le ((x / 100).val + 1 / 2)
  have h₂ := Int.lt_floor_add_one ((x / 100).val + 1 / 2)
  set r := ⌊(x / 100).val + 1 / 2⌋
  have hlow : ((r * 100 - m : ℤ) : ℚ) < 51 := by
    push_cast
    linarith
  have hhigh : (-51 : ℚ) < ((r * 100 - m : ℤ) : ℚ) := by
    push_cast
    linarith
  have hlow' : r * 100 - m < 51 := by exact_mod_cast hlow
  have hhigh' : -51 < r * 100 - m := by exact_mod_cast hhigh
  rw [abs_le]
  omega

section Sums

variable {lines : List MoneyLine} (hlines : ∀ l ∈ lines, l.Billable) (opts : BillOptions)
  (hsub : (computeBill lines opts).subtotal ≤ trillion)
  (hpre : (computeBill lines opts).totalBeforeRoundOff ≤ trillion)

include hlines hsub hpre

/-- The paise of a bill of up to a trillion rupees. -/
theorem exists_paise : ∃ s d c t r : ℤ, (subtotalPaise lines).val = s ∧
    (discountPaise (subtotalPaise lines) opts.discountRupees).val = d ∧
    (billCharge lines opts).val = c ∧ (billTax lines opts).val = t ∧
    (billPreRound lines opts).val = ((s - d + c + t : ℤ) : ℚ) ∧
    (billPayable lines opts).val = ((s - d + c + t + r : ℤ) : ℚ) ∧
    (opts.roundOff = true → (∃ k : ℤ, s - d + c + t + r = k * 100) ∧ |r| ≤ 50) ∧
    (opts.roundOff = false → r = 0) ∧
    0 ≤ s ∧ s ≤ 2 ^ 47 ∧ 0 ≤ d ∧ d ≤ s ∧ 0 ≤ c ∧ 0 ≤ t ∧ s - d + c + t ≤ 2 ^ 47 := by
  obtain ⟨s, hs0, hs⟩ := wholePaise_subtotal hlines
  obtain ⟨d, hd0, hd⟩ := wholePaise_discount hlines opts.discountRupees
  obtain ⟨c, hc0, hc⟩ := wholePaise_charge hlines opts
  obtain ⟨t, ht0, ht⟩ := wholePaise_tax hlines opts
  obtain ⟨p, hp0, hp⟩ := wholePaise_preRound hlines opts
  have hs47 : s ≤ 2 ^ 47 := paise_le_of_rupees hs hs0 hsub
  have hp47 : p ≤ 2 ^ 47 := paise_le_of_rupees hp hp0 hpre
  have hds : d ≤ s := by
    have h := Binary64.le_def.mp (discountPaise_le (subtotalPaise lines) opts.discountRupees)
    rw [hd, hs] at h
    exact_mod_cast h
  have htaxable : (billTaxable lines opts.discountRupees).val = ((s - d : ℤ) : ℚ) :=
    Binary64.val_sub_intCast hs hd (by rw [abs_le]; omega)
  -- the parts are no larger than the total
  have hcharged : billTaxable lines opts.discountRupees + billCharge lines opts ≤
      billPreRound lines opts := Binary64.le_add_left _ (wholePaise_tax hlines opts).nonneg
  have hcp : c ≤ p := by
    have h := Binary64.le_def.mp
      ((Binary64.le_add_right (wholePaise_taxable hlines opts.discountRupees).nonneg _).trans hcharged)
    rw [hc, hp] at h
    exact_mod_cast h
  have htp : t ≤ p := by
    have h := Binary64.le_def.mp (Binary64.le_add_right
      (Binary64.zero_le_add (wholePaise_taxable hlines opts.discountRupees).nonneg
        (wholePaise_charge hlines opts).nonneg) (billTax lines opts))
    rw [ht] at h
    have hle : (t : ℚ) ≤ p := h.trans hp.le
    exact_mod_cast hle
  have hpval : (billPreRound lines opts).val = ((s - d + c + t : ℤ) : ℚ) :=
    Binary64.val_add_intCast (Binary64.val_add_intCast htaxable hc (by rw [abs_le]; omega)) ht
      (by rw [abs_le]; omega)
  have hpsum : p = s - d + c + t := by
    have h := hp.symm.trans hpval
    exact_mod_cast h
  cases hoff : opts.roundOff with
  | false =>
    refine ⟨s, d, c, t, 0, hs, hd, hc, ht, hpval, ?_, nofun, fun _ => rfl, hs0, hs47, hd0, hds, hc0,
      ht0, by omega⟩
    rw [billPayable, hoff, if_neg (by decide), add_zero]
    exact hpval
  | true =>
    obtain ⟨r, hr, hnear⟩ := nearestInt_rupees hp (by rw [abs_le]; omega)
    have hrabs := abs_le.mp hnear
    refine ⟨s, d, c, t, r * 100 - p, hs, hd, hc, ht, hpval, ?_, fun _ => ⟨⟨r, by omega⟩, hnear⟩, nofun,
      hs0, hs47, hd0, hds, hc0, ht0, by omega⟩
    have hsum : s - d + c + t + (r * 100 - p) = r * 100 := by omega
    rw [billPayable, hoff, if_pos rfl, Binary64.val_mul, hr, val_hundred, hsum]
    have hexact := Binary64.round_intCast (r * 100) (by rw [abs_le]; omega)
    exact_mod_cast hexact

theorem computeBill_addsUp : (computeBill lines opts).AddsUp ∧
    (opts.roundOff = true → (computeBill lines opts).RoundedOff) := by
  obtain ⟨s, d, c, t, r, hs, hd, hc, ht, hp, htotal, hround, hplain, hs0, hs47, hd0, hds, hc0, ht0,
    hp47⟩ := exists_paise hlines opts hsub hpre
  have hr : |r| ≤ 50 := by
    cases hoff : opts.roundOff with
    | true => exact (hround hoff).2
    | false =>
      rw [hplain hoff]
      decide
  have hr' := abs_le.mp hr
  have hoff : (billPayable lines opts - billPreRound lines opts).val = ((r : ℤ) : ℚ) := by
    have h := Binary64.val_sub_intCast htotal hp (by rw [abs_le]; omega)
    rw [h]
    congr 1
    omega
  have hpaise : ∀ {x : Binary64} {m : ℤ}, x.val = m → |m| ≤ 2 ^ 50 →
      (toPaise (fromPaise x)).val = m := fun hx hm => by rw [toPaise_fromPaise hx hm, hx]
  rw [computeBill_eq]
  refine ⟨⟨?_, ?_⟩, fun hoff' => ⟨?_, ?_⟩⟩
  · rw [hpaise hp (by rw [abs_le]; omega), hpaise hs (by rw [abs_le]; omega),
      hpaise hd (by rw [abs_le]; omega), hpaise hc (by rw [abs_le]; omega),
      hpaise ht (by rw [abs_le]; omega)]
    push_cast
    ring
  · rw [hpaise htotal (by rw [abs_le]; omega), hpaise hs (by rw [abs_le]; omega),
      hpaise hd (by rw [abs_le]; omega), hpaise hc (by rw [abs_le]; omega),
      hpaise ht (by rw [abs_le]; omega), hpaise hoff (by rw [abs_le]; omega)]
    push_cast
    ring
  · obtain ⟨⟨k, hk⟩, -⟩ := hround hoff'
    refine ⟨k, ?_⟩
    rw [fromPaise_of_int htotal, Binary64.val_div, htotal, val_hundred, hk]
    push_cast
    rw [mul_div_cancel_right₀ (k : ℚ) (by norm_num)]
    exact Binary64.round_intCast k (by rw [abs_le]; omega)
  · rw [hpaise hoff (by rw [abs_le]; omega)]
    exact_mod_cast hr

end Sums

/-- No figure of a bill is negative, but for the round-off, and the discount is no more than the
subtotal. -/
structure BillTotals.NonNegative (t : BillTotals) : Prop where
  discount : 0 ≤ t.discountAmount ∧ t.discountAmount ≤ t.subtotal
  subtotal : 0 ≤ t.subtotal
  serviceCharge : 0 ≤ t.serviceChargeAmount
  tax : 0 ≤ t.taxAmount
  totalBeforeRoundOff : 0 ≤ t.totalBeforeRoundOff
  total : 0 ≤ t.total

theorem computeBill_nonNegative {lines : List MoneyLine} (hlines : ∀ l ∈ lines, l.Billable)
    (opts : BillOptions) : (computeBill lines opts).NonNegative where
  discount := ⟨zero_le_fromPaise (wholePaise_discount hlines _).nonneg,
    fromPaise_mono (discountPaise_le _ _)⟩
  subtotal := zero_le_fromPaise (wholePaise_subtotal hlines).nonneg
  serviceCharge := zero_le_fromPaise (wholePaise_charge hlines opts).nonneg
  tax := zero_le_fromPaise (wholePaise_tax hlines opts).nonneg
  totalBeforeRoundOff := zero_le_fromPaise (wholePaise_preRound hlines opts).nonneg
  total := zero_le_fromPaise (zero_le_payable hlines opts)

/-- A service charge of nothing and no round-off leave the plain totals. -/
theorem computeBill_eq_computeOrderTotals (lines : List MoneyLine) (opts : BillOptions)
    (hnone : ∀ sc ∈ opts.serviceCharge, sc.percent ≤ 0) (hoff : opts.roundOff = false) :
    (computeBill lines opts).toOrderTotals = computeOrderTotals lines opts.discountRupees := by
  have hcharge : ∀ x, serviceChargePaise x opts.serviceCharge = 0 := by
    intro x
    unfold serviceChargePaise
    cases hsc : opts.serviceCharge with
    | none => rfl
    | some sc => exact if_neg (not_lt.mpr (hnone sc hsc))
  simp only [computeBill, computeOrderTotals, hcharge, hoff, taxBasePaise, ite_self,
    add_zero_binary64, Bool.false_eq_true, if_false]

/-- A bill of ten thousand trillion rupees. -/
def hugeBill : List MoneyLine := [⟨.ofRat (10 ^ 18), 0⟩]

/-- Two lines, a discount, a taxable service charge, rounded off. -/
def servedBill : List MoneyLine := [⟨25050, 5⟩, ⟨9999, 18⟩]

def servedOptions : BillOptions := ⟨.ofRat (251 / 20), some ⟨10, true⟩, true⟩

theorem servedBill_billable : ∀ l ∈ servedBill, l.Billable := by
  intro l hl
  rcases List.mem_pair.mp hl with rfl | rfl
  · exact ⟨⟨25050, by norm_num, by decide +kernel⟩, by decide +kernel, by decide +kernel⟩
  · exact ⟨⟨9999, by norm_num, by decide +kernel⟩, by decide +kernel, by decide +kernel⟩

end StelloKitchens
