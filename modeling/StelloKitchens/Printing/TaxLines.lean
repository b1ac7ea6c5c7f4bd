import Mathlib.Algebra.BigOperators.Group.Finset.Piecewise
import Mathlib.Algebra.BigOperators.Ring.Finset
import Mathlib.Algebra.BigOperators.Ring.List
import StelloKitchens.Lib.RoundingError
import StelloKitchens.Lib.RoundingOrder
import StelloKitchens.Printing.BillDocument
import StelloKitchens.Shared.Cents

/-!
# What the tax lines of a bill add up to

What the roundings of the shares leave of the tax goes to the rate with the largest share. Where the
other shares were rounded up to more than the tax, that share becomes negative, and is left out: the
lines then add up to more than the tax.

## Main definitions

* `TaxLineParams.Whole` — figures in whole paise, and lines that can be added up.
* `TaxLineParams.Covers` — the shares leave something of the tax to the largest of them.

## Main results

* `sum_billTaxLines` — what the tax lines add up to.
* `TaxLineParams.sum_eq_tax_iff` — when that is the tax.
-/

namespace StelloKitchens.Printing

/-! ### The tax of a rate -/

/-- The paise of a line. -/
def TaxedLine.paise (l : TaxedLine) : ℤ := ⌊(toPaise l.lineTotal).val⌋

/-- Lines that the paise arithmetic adds up exactly. -/
structure Fits (lines : List TaxedLine) : Prop where
  whole : ∀ l ∈ lines, (toPaise l.lineTotal).val = l.paise
  each : ∀ l ∈ lines, |l.paise| ≤ 10 ^ 10
  rate : ∀ l ∈ lines, |l.taxRatePercent.val| ≤ 1000
  size : (lines.map fun l => |l.paise|).sum ≤ 2 * 10 ^ 13

/-- The sizes of the lines of a rate. -/
def weight (lines : List TaxedLine) (rate : Binary64) : ℤ :=
  (lines.map fun l => if l.taxRatePercent = rate then |l.paise| else 0).sum

section Groups

variable {lines : List TaxedLine} {groups : RateGroups} {rate : Binary64}

theorem weight_nonneg (lines : List TaxedLine) (rate : Binary64) : 0 ≤ weight lines rate := by
  refine List.sum_nonneg fun x hx => ?_
  obtain ⟨l, -, rfl⟩ := List.mem_map.mp hx
  split <;> positivity

/-- The lines of one rate are some of the lines. -/
theorem weight_le (lines : List TaxedLine) (rate : Binary64) :
    weight lines rate ≤ (lines.map fun l => |l.paise|).sum := by
  refine List.sum_le_sum fun l _ => ?_
  split
  · exact le_refl _
  · positivity

/-- A line is of one rate. -/
theorem sum_weight_le {rates : List Binary64} (hrates : rates.Nodup) (lines : List TaxedLine) :
    (rates.map (weight lines)).sum ≤ (lines.map fun l => |l.paise|).sum := by
  induction lines with
  | nil =>
    have hnone : weight [] = fun _ => 0 := rfl
    simp [hnone]
  | cons l lines ih =>
    have hsplit : (rates.map (weight (l :: lines))).sum =
        (rates.map fun r => if l.taxRatePercent = r then |l.paise| else 0).sum +
          (rates.map (weight lines)).sum := by
      rw [← List.sum_map_add]
      rfl
    have hone : (rates.map fun r => if l.taxRatePercent = r then |l.paise| else 0).sum ≤
        |l.paise| := by
      rw [← List.sum_toFinset _ hrates, Finset.sum_ite_eq]
      split
      · exact le_refl _
      · positivity
    rw [hsplit, List.map_cons, List.sum_cons]
    exact add_le_add hone ih

theorem raw_addToGroup (groups : RateGroups) (l : TaxedLine) (rate : Binary64) :
    (addToGroup groups l).raw rate =
      if l.taxRatePercent = rate ∧ l.taxRatePercent ≠ 0 then
        groups.raw rate + toPaise l.lineTotal * l.taxRatePercent / 100
      else groups.raw rate := by
  unfold addToGroup
  by_cases hzero : l.taxRatePercent = 0
  · simp [hzero]
  rw [if_neg hzero]
  by_cases hrate : l.taxRatePercent = rate
  · subst hrate
    have hself : (groups.put (l.taxRatePercent, groups.raw l.taxRatePercent +
        toPaise l.lineTotal * l.taxRatePercent / 100)).find? l.taxRatePercent = some _ :=
      KeyedTable.find?_put_self
    rw [if_pos ⟨rfl, hzero⟩, RateGroups.raw]
    exact congrArg (fun o => (Option.map (·.2) o).getD 0) hself
  · have hother : (groups.put (l.taxRatePercent, groups.raw l.taxRatePercent +
        toPaise l.lineTotal * l.taxRatePercent / 100)).find? rate = groups.find? rate :=
      KeyedTable.find?_put_of_ne (Ne.symm hrate)
    rw [if_neg fun h => hrate h.1, RateGroups.raw, hother]
    rfl

theorem abs_lineTax_le {l : TaxedLine} (hwhole : (toPaise l.lineTotal).val = l.paise)
    (heach : |l.paise| ≤ 10 ^ 10) (hrate : |l.taxRatePercent.val| ≤ 1000) :
    |(toPaise l.lineTotal * l.taxRatePercent / 100).val| ≤ ((10 * |l.paise| : ℤ) : ℚ) := by
  have hmul : |(toPaise l.lineTotal * l.taxRatePercent).val| ≤ ((1000 * |l.paise| : ℤ) : ℚ) := by
    rw [Binary64.val_mul, hwhole]
    refine Binary64.abs_round_le ?_ (by omega)
    rw [abs_mul]
    push_cast
    rw [mul_comm]
    gcongr
  rw [Binary64.val_div, val_hundred]
  refine Binary64.abs_round_le ?_ (by omega)
  rw [abs_div, abs_of_pos (by norm_num : (0 : ℚ) < 100)]
  push_cast at hmul ⊢
  linarith

/-- The tax of a rate is bounded by the lines that have it. -/
theorem abs_raw_le (h : Fits lines) (rate : Binary64) :
    |((rateGroups lines).raw rate).val| ≤ ((10 * weight lines rate : ℤ) : ℚ) := by
  have hfrom : ∀ (ls : List TaxedLine) (groups : RateGroups) (w : ℤ),
      |(groups.raw rate).val| ≤ ((10 * w : ℤ) : ℚ) → w + weight ls rate ≤ 2 * 10 ^ 13 →
      (∀ l ∈ ls, l ∈ lines) →
      |((ls.foldl addToGroup groups).raw rate).val| ≤ ((10 * (w + weight ls rate) : ℤ) : ℚ) := by
    intro ls
    induction ls with
    | nil =>
      intro groups w hw _ _
      simpa [weight] using hw
    | cons l ls ih =>
      intro groups w hw hbound hmem
      obtain ⟨hl, hls⟩ := List.forall_mem_cons.mp hmem
      have hcons : weight (l :: ls) rate =
          (if l.taxRatePercent = rate then |l.paise| else 0) + weight ls rate := rfl
      rw [hcons, ← add_assoc] at hbound ⊢
      have hrest := weight_nonneg ls rate
      refine ih _ _ ?_ hbound hls
      rw [raw_addToGroup]
      by_cases hrate : l.taxRatePercent = rate ∧ l.taxRatePercent ≠ 0
      · rw [if_pos hrate, if_pos hrate.1]
        rw [if_pos hrate.1] at hbound
        rw [Binary64.val_add]
        refine Binary64.abs_round_le ?_ (by omega)
        have hline := abs_lineTax_le (h.whole l hl) (h.each l hl) (h.rate l hl)
        refine (abs_add_le _ _).trans ?_
        push_cast at hw hline ⊢
        linarith
      · rw [if_neg hrate]
        refine hw.trans ?_
        have hnonneg : (0 : ℤ) ≤ if l.taxRatePercent = rate then |l.paise| else 0 := by
          split <;> positivity
        exact_mod_cast (by omega : 10 * w ≤ 10 * (w + _))
  have hzero := hfrom lines .empty 0 (by simp [RateGroups.raw])
    (by rw [zero_add]; exact (weight_le lines rate).trans h.size) fun _ hl => hl
  rwa [zero_add] at hzero

end Groups

/-! ### The shares -/

namespace TaxLineParams

/-- A share in whole paise. -/
def sharePaise (params : TaxLineParams) (rate : Binary64) : ℤ := ⌊(params.share rate).val⌋

/-- What is printed of a rate, in whole paise, of this tax. -/
def printedPaise (params : TaxLineParams) (tax : ℤ) (rate : Binary64) : ℤ :=
  params.sharePaise rate +
    if rate = params.biggest then tax - (params.rates.map params.sharePaise).sum else 0

/-- The figures are whole paise, and the lines can be added up. -/
structure Whole (params : TaxLineParams) (subtotal taxable tax : ℤ) : Prop where
  fits : Fits params.lines
  val_subtotal : params.subtotalPaise.val = subtotal
  val_taxable : params.taxablePaise.val = taxable
  taxable_nonneg : 0 ≤ taxable
  taxable_le : 0 < subtotal → taxable ≤ subtotal
  val_tax : params.taxPaise.val = tax
  tax_le : |tax| ≤ 10 ^ 10

variable {params : TaxLineParams} {subtotal taxable tax : ℤ}

theorem nodup_rates (params : TaxLineParams) : params.rates.Nodup :=
  (List.perm_insertionSort _ _).nodup_iff.mpr (rateGroups params.lines).nodup_keys

theorem sum_rates (params : TaxLineParams) (f : Binary64 → ℤ) :
    (params.rates.map f).sum = ∑ r ∈ params.rates.toFinset, f r :=
  (List.sum_toFinset f params.nodup_rates).symm

theorem biggest_mem (h : params.rates ≠ []) : params.biggest ∈ params.rates := by
  unfold biggest
  refine List.foldlRecOn params.rates _ (motive := (· ∈ params.rates)) ?_ fun b hb r hr => ?_
  · obtain ⟨r, rest, hrates⟩ := List.exists_cons_of_ne_nil h
    simp [hrates]
  · split
    · exact hr
    · exact hb

/-- A rate's share is a whole number of paise, bounded by the lines that have the rate. -/
theorem val_share (h : params.Whole subtotal taxable tax) (hpos : 0 < subtotal) (rate : Binary64) :
    (params.share rate).val = params.sharePaise rate ∧
      |params.sharePaise rate| ≤ 20 * weight params.lines rate := by
  have hweight := weight_le params.lines rate
  have hsize := h.fits.size
  have hsubtotal : (0 : ℚ) < subtotal := by exact_mod_cast hpos
  have htaxable : (taxable : ℚ) ≤ subtotal := by exact_mod_cast h.taxable_le hpos
  have htaxable0 : (0 : ℚ) ≤ taxable := by exact_mod_cast h.taxable_nonneg
  have hraw := abs_raw_le h.fits rate
  set raw := (rateGroups params.lines).raw rate
  have hmul : |(raw * params.taxablePaise).val| ≤ 2 * (|raw.val| * taxable) := by
    have herror := Binary64.abs_round_sub_le (raw.val * taxable)
    have htri := abs_sub_abs_le_abs_sub (Binary64.round (raw.val * taxable)) (raw.val * taxable)
    have hu : Binary64.unitRoundoff ≤ 1 := by norm_num [Binary64.unitRoundoff]
    have hle := mul_le_mul_of_nonneg_right hu (abs_nonneg (raw.val * taxable))
    rw [Binary64.val_mul, h.val_taxable]
    rw [abs_mul, abs_of_nonneg htaxable0] at *
    linarith
  have hdiv : |(raw * params.taxablePaise / params.subtotalPaise).val| ≤
      ((20 * weight params.lines rate : ℤ) : ℚ) := by
    rw [Binary64.val_div, h.val_subtotal]
    refine Binary64.abs_round_le ?_ (by omega)
    rw [abs_div, abs_of_pos hsubtotal, div_le_iff₀ hsubtotal]
    refine hmul.trans ?_
    have hprod := mul_le_mul hraw htaxable htaxable0 ((abs_nonneg _).trans hraw)
    push_cast at hprod ⊢
    linarith
  obtain ⟨hval, hbound⟩ := Binary64.val_nearestInt_of_abs_le hdiv (by omega)
  have hshare : params.sharePaise rate =
      ⌊(raw * params.taxablePaise / params.subtotalPaise).val + 1 / 2⌋ := by
    change ⌊(Binary64.nearestInt _).val⌋ = _
    rw [hval, Int.floor_intCast]
  rw [hshare]
  exact ⟨hval, hbound⟩

/-- The sizes of the shares together. -/
theorem sum_abs_sharePaise_le (h : params.Whole subtotal taxable tax) (hpos : 0 < subtotal) :
    (params.rates.map fun r => |params.sharePaise r|).sum ≤ 4 * 10 ^ 14 := by
  have hle : (params.rates.map fun r => |params.sharePaise r|).sum ≤
      (params.rates.map fun r => 20 * weight params.lines r).sum :=
    List.sum_le_sum fun r _ => (val_share h hpos r).2
  rw [List.sum_map_mul_left] at hle
  have hweight := sum_weight_le params.nodup_rates params.lines
  have hsize := h.fits.size
  omega

/-- What is printed of a rate is a whole number of paise. -/
theorem val_printed (h : params.Whole subtotal taxable tax) (hpos : 0 < subtotal) {rate : Binary64}
    (hrate : rate ∈ params.rates) :
    (params.printed rate).val = params.printedPaise tax rate ∧
      |params.printedPaise tax rate| ≤ 2 ^ 50 := by
  have hsizes := sum_abs_sharePaise_le h hpos
  have hsum : |(params.rates.map params.sharePaise).sum| ≤ 4 * 10 ^ 14 := by
    refine le_trans ?_ hsizes
    rw [sum_rates, sum_rates]
    exact Finset.abs_sum_le_sum_abs _ _
  have hone : |params.sharePaise rate| ≤ 4 * 10 ^ 14 := by
    refine le_trans ?_ hsizes
    exact List.single_le_sum (fun x hx => by
      obtain ⟨r, -, rfl⟩ := List.mem_map.mp hx
      exact abs_nonneg _) _ (List.mem_map.mpr ⟨rate, hrate, rfl⟩)
  have htax := h.tax_le
  rw [abs_le] at hsum hone htax
  have hresidue : params.residue.val =
      ((tax - (params.rates.map params.sharePaise).sum : ℤ) : ℚ) := by
    have hfold := Binary64.val_foldl_add_intCast params.share params.sharePaise params.rates
      (fun r _ => (val_share h hpos r).1) (hsizes.trans (by norm_num))
    rw [residue, List.foldl_map]
    exact Binary64.val_sub_intCast h.val_tax hfold (by rw [abs_le]; omega)
  unfold printed printedPaise
  by_cases hbiggest : rate = params.biggest
  · rw [if_pos hbiggest, if_pos hbiggest]
    refine ⟨Binary64.val_add_intCast (val_share h hpos rate).1 hresidue ?_, ?_⟩ <;>
      rw [abs_le] <;> omega
  · rw [if_neg hbiggest, if_neg hbiggest, add_zero]
    exact ⟨(val_share h hpos rate).1, by rw [abs_le]; omega⟩

/-- With what the shares leave, they are the tax. -/
theorem sum_printedPaise (h : params.rates ≠ []) (tax : ℤ) :
    (params.rates.map (params.printedPaise tax)).sum = tax := by
  have hsplit : (params.rates.map (params.printedPaise tax)).sum =
      (params.rates.map params.sharePaise).sum +
        ∑ r ∈ params.rates.toFinset, if r = params.biggest then
          tax - (params.rates.map params.sharePaise).sum else 0 := by
    rw [← sum_rates, ← List.sum_map_add]
    rfl
  rw [hsplit, Finset.sum_ite_eq', if_pos (List.mem_toFinset.mpr (biggest_mem h))]
  ring

end TaxLineParams

/-! ### The tax lines -/

/-- What lines of the tax add up to, in paise. -/
def taxPaiseOf (lines : List BillTaxLineDto) : ℚ := (lines.map fun l => (toPaise l.amount).val).sum

theorem taxPaiseOf_flatMap {α : Type} (f : α → List BillTaxLineDto) (l : List α) :
    taxPaiseOf (l.flatMap f) = (l.map fun a => taxPaiseOf (f a)).sum := by
  induction l with
  | nil => rfl
  | cons a l ih =>
    rw [List.flatMap_cons, List.map_cons, List.sum_cons, ← ih]
    simp [taxPaiseOf]

/-- The lines of a rate add up to what is printed of it, if that is anything. -/
theorem taxPaiseOf_rateLines (interState : Bool) (rate : Binary64) {paise : Binary64} {m : ℤ}
    (hval : paise.val = m) (hm : |m| ≤ 2 ^ 50) :
    taxPaiseOf (rateLines interState rate paise) = ((max 0 m : ℤ) : ℚ) ∧
      ∀ l ∈ rateLines interState rate paise, 0 ≤ l.amount := by
  unfold rateLines
  by_cases hneg : paise ≤ 0
  · have hm0 : m ≤ 0 := by
      rw [Binary64.le_def, hval, Binary64.val_zero] at hneg
      exact_mod_cast hneg
    rw [if_pos hneg, max_eq_left hm0]
    exact ⟨by simp [taxPaiseOf], fun l hl => by cases hl⟩
  have hm0 : 0 < m := by
    rw [not_le, Binary64.lt_def, hval, Binary64.val_zero] at hneg
    exact_mod_cast hneg
  rw [if_neg hneg, max_eq_right hm0.le]
  cases interState with
  | true =>
    refine ⟨?_, fun l hl => ?_⟩
    · simp [taxPaiseOf, toPaise_fromPaise hval hm, hval]
    · obtain rfl := List.mem_singleton.mp hl
      exact zero_le_fromPaise (not_le.mp hneg).le
  | false =>
    rw [abs_le] at hm
    have hhalf := (val_half hval (by rw [abs_le]; omega)).2
    have hrest : (paise - (paise / 2).floor).val = ((m - m / 2 : ℤ) : ℚ) :=
      Binary64.val_sub_intCast hval hhalf (by rw [abs_le]; omega)
    have hnonneg : ∀ {x : Binary64} {k : ℤ}, x.val = k → 0 ≤ k → 0 ≤ fromPaise x := fun hx hk =>
      zero_le_fromPaise (Binary64.nonneg_iff.mpr (hx ▸ by exact_mod_cast hk))
    refine ⟨?_, fun l hl => ?_⟩
    · simp only [taxPaiseOf, Bool.false_eq_true, if_false, List.map_cons, List.map_nil,
        List.sum_cons, List.sum_nil]
      rw [toPaise_fromPaise hhalf (by rw [abs_le]; omega),
        toPaise_fromPaise hrest (by rw [abs_le]; omega), hhalf, hrest]
      push_cast
      ring
    · simp only [Bool.false_eq_true, if_false, List.mem_cons, List.not_mem_nil, or_false] at hl
      obtain rfl | rfl := hl
      · exact hnonneg hhalf (by omega)
      · exact hnonneg hrest (by omega)

/-- What the tax lines add up to. -/
theorem sum_billTaxLines {params : TaxLineParams} {subtotal taxable tax : ℤ}
    (h : params.Whole subtotal taxable tax) :
    taxPaiseOf (billTaxLines params) =
      (if params.rates = [] ∨ tax ≤ 0 ∨ subtotal ≤ 0 then 0
        else ((params.rates.map fun r => max 0 (params.printedPaise tax r)).sum : ℤ) : ℚ) ∧
      ∀ l ∈ billTaxLines params, 0 ≤ l.amount := by
  have hguard : (params.rates = [] ∨ params.taxPaise ≤ 0 ∨ params.subtotalPaise ≤ 0) ↔
      (params.rates = [] ∨ tax ≤ 0 ∨ subtotal ≤ 0) := by
    simp only [Binary64.le_def, h.val_tax, h.val_subtotal, Binary64.val_zero, Int.cast_nonpos]
  unfold billTaxLines
  by_cases hnone : params.rates = [] ∨ tax ≤ 0 ∨ subtotal ≤ 0
  · rw [if_pos (hguard.mpr hnone), if_pos hnone]
    exact ⟨by simp [taxPaiseOf], fun l hl => by cases hl⟩
  rw [if_neg (mt hguard.mp hnone), if_neg hnone]
  push Not at hnone
  obtain ⟨-, -, hpos⟩ := hnone
  have hrate : ∀ r ∈ params.rates, _ := fun r hr =>
    taxPaiseOf_rateLines params.interState r
      (TaxLineParams.val_printed h hpos hr).1
      (TaxLineParams.val_printed h hpos hr).2
  refine ⟨?_, fun l hl => ?_⟩
  · rw [taxPaiseOf_flatMap, Int.cast_list_sum, List.map_map]
    exact congrArg List.sum (List.map_congr_left fun r hr => (hrate r hr).1)
  · obtain ⟨r, hr, hl⟩ := List.mem_flatMap.mp hl
    exact (hrate r hr).2 l hl

/-! ### When the lines add up to the tax -/

namespace TaxLineParams

/-- The shares of the rates leave something of the tax to the largest of them. -/
structure Leaves (params : TaxLineParams) : Prop where
  nonneg : ∀ r ∈ params.rates, r ≠ params.biggest → 0 ≤ params.share r
  sum_le : ((params.rates.filter (· ≠ params.biggest)).map fun r => (params.share r).val).sum ≤
    params.taxPaise.val

/-- There is no tax, or the shares of the rates leave something of it to the largest of them. -/
def Covers (params : TaxLineParams) : Prop :=
  params.taxPaise = 0 ∨ (0 < params.taxPaise ∧ params.Leaves)

variable {params : TaxLineParams} {subtotal taxable tax : ℤ}

theorem printedPaise_nonneg_iff (h : params.Whole subtotal taxable tax) (hpos : 0 < subtotal)
    (hrates : params.rates ≠ []) :
    (∀ r ∈ params.rates, 0 ≤ params.printedPaise tax r) ↔ params.Leaves := by
  have hnodup := params.nodup_rates
  have hothers : ((params.rates.filter (· ≠ params.biggest)).map fun r => (params.share r).val).sum =
      (((params.rates.map params.sharePaise).sum - params.sharePaise params.biggest : ℤ) : ℚ) := by
    have hval : ((params.rates.filter (· ≠ params.biggest)).map fun r => (params.share r).val) =
        (params.rates.filter (· ≠ params.biggest)).map fun r => ((params.sharePaise r : ℤ) : ℚ) :=
      List.map_congr_left fun r _ => (val_share h hpos r).1
    rw [hval, ← List.sum_toFinset (fun r => ((params.sharePaise r : ℤ) : ℚ)) (hnodup.filter _), List.toFinset_filter, sum_rates,
      ← Finset.add_sum_erase _ _ (List.mem_toFinset.mpr (biggest_mem hrates)), add_sub_cancel_left]
    push_cast
    refine Finset.sum_congr ?_ fun _ _ => rfl
    ext r
    simp [and_comm]
  have hbiggest : params.printedPaise tax params.biggest =
      tax - ((params.rates.map params.sharePaise).sum - params.sharePaise params.biggest) := by
    rw [printedPaise, if_pos rfl]
    ring
  have hother : ∀ r, r ≠ params.biggest → (0 ≤ params.printedPaise tax r ↔ 0 ≤ params.share r) := by
    intro r hr
    rw [printedPaise, if_neg hr, add_zero, Binary64.nonneg_iff, (val_share h hpos r).1]
    exact Int.cast_nonneg_iff.symm
  constructor
  · intro hall
    refine ⟨fun r hr hne => (hother r hne).mp (hall r hr), ?_⟩
    have hle := hall _ (biggest_mem hrates)
    rw [hbiggest] at hle
    rw [hothers, h.val_tax]
    exact_mod_cast sub_nonneg.mp hle
  · rintro ⟨hnonneg, hsum⟩ r hr
    by_cases hne : r = params.biggest
    · rw [hothers, h.val_tax] at hsum
      rw [hne, hbiggest]
      exact sub_nonneg.mpr (by exact_mod_cast hsum)
    · exact (hother r hne).mpr (hnonneg r hr hne)

/-- The tax lines add up to the tax if and only if it is covered. -/
theorem sum_eq_tax_iff (h : params.Whole subtotal taxable tax)
    (htax : 0 < tax → params.rates ≠ [] ∧ 0 < subtotal) :
    taxPaiseOf (billTaxLines params) = params.taxPaise.val ↔ params.Covers := by
  have hzero : params.taxPaise = 0 ↔ tax = 0 := by
    rw [Binary64.ext_iff, h.val_tax, Binary64.val_zero, Int.cast_eq_zero]
  have hpositive : 0 < params.taxPaise ↔ 0 < tax := by
    rw [Binary64.lt_def, h.val_tax, Binary64.val_zero, Int.cast_pos]
  rw [(sum_billTaxLines h).1, h.val_tax, Covers, hzero, hpositive]
  rcases lt_trichotomy tax 0 with hneg | rfl | hpos
  · rw [if_pos (.inr (.inl hneg.le))]
    simp only [hneg.ne, hneg.not_gt, false_and, or_false, iff_false]
    exact fun h => hneg.ne (by exact_mod_cast h.symm)
  · simp
  · obtain ⟨hrates, hsubtotal⟩ := htax hpos
    rw [if_neg (by simp [hrates, hpos, hsubtotal]), Int.cast_inj]
    simp only [hpos.ne', hpos, true_and, false_or]
    rw [← printedPaise_nonneg_iff h hsubtotal hrates]
    have hsum := sum_printedPaise hrates tax
    have hiff := Finset.sum_eq_sum_iff_of_le (s := params.rates.toFinset)
      (f := params.printedPaise tax) (g := fun r => max 0 (params.printedPaise tax r))
      fun r _ => le_max_right _ _
    rw [← sum_rates, ← sum_rates, hsum] at hiff
    refine eq_comm.trans (hiff.trans ?_)
    simp only [List.mem_toFinset]
    exact forall₂_congr fun r _ => eq_comm.trans max_eq_right_iff

end TaxLineParams

end StelloKitchens.Printing
