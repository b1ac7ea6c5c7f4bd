import Mathlib.Algebra.BigOperators.Ring.Finset
import Mathlib.Algebra.BigOperators.Ring.List
import StelloKitchens.Invoices.HsnSummary
import StelloKitchens.Printing.BillFoots
import StelloKitchens.Shared.Cents

/-!
# When the rows add up to the invoice

The rows of the summary round by themselves: their shares of the taxable value, the tax on these, and
the halves of that tax. The invoice has been rounded once. They come to the same if the errors of the
rows cancel, and, where tax is halved, the invoice's can be halved too.

## Main definitions

* `Figured` — the figures of an order are those of its lines.
* `sharePaise`, `groupTax` — the taxable value and the tax of a row, rounded in doubles.
* `rowTax`, `recastTax` — the tax of a row, as it is first split, and as it is cast.
* `RoundingsCancel` — the errors of the rows cancel.

## Main results

* `reconciles_iff` — the rows add up to an invoice.
* `summary_reconciles_iff` — when they do, before and after an IRN is generated.
-/

namespace StelloKitchens.Invoices

open Checked

/-! ### The taxable value -/

/-- The taxable value in paise. -/
def taxablePaise (f : Billing.OrderFigures) : ℤ :=
  f.subtotal.scaled - f.discountAmount.scaled +
    if f.serviceChargeTaxable then f.serviceChargeAmount.scaled else 0

theorem r2_eq (x : Binary64) : r2 x = fromPaise (toPaise x) := by
  obtain ⟨m, hm⟩ : ∃ m : ℤ, (toPaise x).val = m := Binary64.nearestInt_isInt _
  rw [fromPaise_of_int hm]
  rfl

/-- Rounding to two decimals what comes to whole paise. -/
theorem r2_eq_ofRat {x : Binary64} {k : ℤ} (hx : (toPaise x).val = k) : r2 x = .ofRat (k / 10 ^ 2) := by
  rw [r2_eq, fromPaise_eq_ofRat hx]

/-- The taxable value is few roundings off its paise. -/
theorem approx_taxable (f : Billing.OrderFigures) : Binary64.Approx 3
    (((|f.subtotal.scaled| + |f.discountAmount.scaled| + |f.serviceChargeAmount.scaled| : ℤ) : ℚ) /
      100)
    (f.subtotal.toNumber - f.discountAmount.toNumber +
      if f.serviceChargeTaxable then f.serviceChargeAmount.toNumber else 0)
    ((taxablePaise f : ℤ) / 100) := by
  have hdiff := (approx_ofRat_paise f.subtotal.scaled).sub (approx_ofRat_paise f.discountAmount.scaled)
  have hcharge : Binary64.Approx 2 (((|f.serviceChargeAmount.scaled| : ℤ) : ℚ) / 100)
      (if f.serviceChargeTaxable then f.serviceChargeAmount.toNumber else 0)
      (((if f.serviceChargeTaxable then f.serviceChargeAmount.scaled else 0 : ℤ) : ℚ) / 100) := by
    have hnonneg : (0 : ℚ) ≤ ((|f.serviceChargeAmount.scaled| : ℤ) : ℚ) / 100 := by positivity
    split
    · exact (approx_ofRat_paise _).mono (by omega)
    · refine ⟨?_, ?_⟩
      · rw [Int.cast_zero, zero_div, Binary64.val_zero, sub_zero, abs_zero]
        exact mul_nonneg (Binary64.growth_nonneg 2) hnonneg
      · rw [Int.cast_zero, zero_div, abs_zero]
        exact hnonneg
  have hadd := hdiff.add hcharge
  rw [← sub_div, ← add_div, ← add_div, ← add_div, ← Int.cast_sub, ← Int.cast_add,
    ← Int.cast_add, ← Int.cast_add] at hadd
  exact hadd

/-- The taxable value is computed to the paisa. -/
theorem val_toPaise_taxableOf (f : Billing.OrderFigures) :
    taxableOf f = .ofRat (taxablePaise f / 10 ^ 2) ∧ |taxablePaise f| < 3 * 10 ^ 10 := by
  have hs := f.subtotal.bound
  have hd := f.discountAmount.bound
  have hc := f.serviceChargeAmount.bound
  have hsize : (((|f.subtotal.scaled| + |f.discountAmount.scaled| + |f.serviceChargeAmount.scaled| :
      ℤ) : ℚ)) < 10 ^ 12 := by
    have : |f.subtotal.scaled| + |f.discountAmount.scaled| + |f.serviceChargeAmount.scaled| <
      10 ^ 12 := by omega
    exact_mod_cast this
  refine ⟨r2_eq_ofRat (val_toPaise_of_approx (approx_taxable f) (by omega) hsize), ?_⟩
  rw [abs_lt] at hs hd hc ⊢
  unfold taxablePaise
  split <;> constructor <;> omega

/-! ### The figures of an order -/

/-- The figures of an order are those that settling computes from its lines. -/
def Figured (f : Billing.OrderFigures) (items : List Billing.OrderItem) : Prop :=
  ∃ (sc : Option ServiceCharge) (discount : Binary64) (roundOff : Bool),
    Billing.figuresOf (computeBill (items.map (·.moneyLine)) ⟨discount, sc, roundOff⟩) sc = .ok f

/-- What holds of the lines of an order and its figures. -/
structure Billed (f : Billing.OrderFigures) (items : List Billing.OrderItem) : Prop where
  size : (items.map fun i => |i.lineTotal.scaled|).sum ≤ 10 ^ 12
  subtotal : (items.map (·.lineTotal.scaled)).sum = f.subtotal.scaled
  taxable : 0 < f.subtotal.scaled →
    0 ≤ taxablePaise f ∧ taxablePaise f ≤ 12 * f.subtotal.scaled
  untaxable : f.subtotal.scaled ≤ 0 → taxablePaise f = 0

open Billing in
/-- The rate of the charge that is stored. -/
theorem charge_of_figuresOf {totals : BillTotals} {sc : Option ServiceCharge} {f : OrderFigures}
    (h : figuresOf totals sc = .ok f) :
    (∀ c ∈ sc, |c.percent.val| < 1001) ∧ f.serviceChargeTaxable = sc.any (·.taxable) := by
  unfold figuresOf at h
  obtain ⟨_, -, h⟩ := bind_eq_ok.mp h
  obtain ⟨_, -, h⟩ := bind_eq_ok.mp h
  obtain ⟨_, -, h⟩ := bind_eq_ok.mp h
  obtain ⟨_, hrate, h⟩ := bind_eq_ok.mp h
  obtain ⟨_, -, h⟩ := bind_eq_ok.mp h
  obtain ⟨_, -, h⟩ := bind_eq_ok.mp h
  obtain ⟨_, -, h⟩ := bind_eq_ok.mp h
  cases pure_eq_ok.mp h
  refine ⟨fun c hc => ?_, rfl⟩
  obtain rfl := Option.mem_def.mp hc
  by_contra hlarge
  have hnone : (Decimal.ofNumber c.percent : Option Rate) = none := Decimal.ofNumber_eq_none (by
    norm_num
    linarith)
  have hsome := orThrow_eq_ok.mp hrate
  rw [Option.elim_some, hnone] at hsome
  cases hsome

/-- A charge is no more than eleven times what it is taken on. -/
theorem serviceCharge_le {sc : Option ServiceCharge} (hsc : ∀ c ∈ sc, |c.percent.val| < 1001)
    {taxable : Binary64} {k : ℤ} (hk : taxable.val = k) (hk0 : 0 ≤ k) (hk10 : k < 2 * 10 ^ 10) :
    (serviceChargePaise taxable sc).val ≤ (11 * k : ℤ) := by
  have hkq : (0 : ℚ) ≤ k := by exact_mod_cast hk0
  unfold serviceChargePaise
  cases sc with
  | none =>
    rw [Binary64.val_zero]
    exact_mod_cast (by omega : 0 ≤ 11 * k)
  | some c =>
    dsimp only
    split
    · have hmul : |(taxable * c.percent).val| ≤ ((1001 * k : ℤ) : ℚ) := by
        refine Binary64.abs_round_le ?_ (by omega)
        rw [hk, abs_mul, abs_of_nonneg hkq]
        push_cast
        rw [mul_comm]
        exact mul_le_mul_of_nonneg_right (hsc c rfl).le hkq
      have hdiv : |(taxable * c.percent / 100).val| ≤ ((11 * k : ℤ) : ℚ) := by
        refine Binary64.abs_round_le ?_ (by omega)
        rw [val_hundred, abs_div, show |(100 : ℚ)| = 100 by norm_num, div_le_iff₀ (by norm_num)]
        push_cast at hmul ⊢
        linarith
      obtain ⟨hval, hle⟩ := Binary64.val_nearestInt_of_abs_le hdiv (by omega)
      rw [hval]
      exact_mod_cast (abs_le.mp hle).2
    · rw [Binary64.val_zero]
      exact_mod_cast (by omega : 0 ≤ 11 * k)

open Printing in
theorem Figured.billed {f : Billing.OrderFigures} {items : List Billing.OrderItem}
    (h : Figured f items) (hsize : (∃ i ∈ items, i.lineTotal.scaled < 0) →
      (items.map fun i => |i.lineTotal.scaled|).sum ≤ 10 ^ 12) : Billed f items := by
  obtain ⟨sc, discount, roundOff, hfigures⟩ := h
  have hstored := stored_of_figuresOf hfigures
  obtain ⟨hpercent, htaxed⟩ := charge_of_figuresOf hfigures
  have hlines : ∀ l ∈ items.map (·.moneyLine), ∃ m : ℤ, l.lineTotalPaise.val = (m : ℚ) := by
    intro l hl
    obtain ⟨i, -, rfl⟩ := List.mem_map.mp hl
    exact ⟨_, val_toPaise_toNumber i.lineTotal⟩
  have hsubtotal : (subtotalPaise (items.map (·.moneyLine))).val = f.subtotal.scaled := by
    obtain ⟨m, hm⟩ := val_subtotalPaise hlines
    rw [hm, scaled_of_store hm hstored.subtotal]
  have hsum : (items.map fun i => |i.lineTotal.scaled|).sum ≤ 10 ^ 12 := by
    by_cases hneg : ∃ i ∈ items, i.lineTotal.scaled < 0
    · exact hsize hneg
    · push Not at hneg
      have hle := sum_lineTotal_le hsubtotal hneg
      have hbound := (abs_lt.mp f.subtotal.bound).2
      omega
  have hexact : (items.map (·.lineTotal.scaled)).sum = f.subtotal.scaled := by
    have hfold := Binary64.val_foldl_add_intCast (fun i : Billing.OrderItem => toPaise i.lineTotal.toNumber)
      (·.lineTotal.scaled) items (fun i _ => val_toPaise_toNumber i.lineTotal) (by omega)
    rw [subtotalPaise, List.foldl_map] at hsubtotal
    exact_mod_cast hfold.symm.trans hsubtotal
  have hs := abs_lt.mp f.subtotal.bound
  -- the discount and the charge of the bill, in paise
  obtain ⟨d, hd, hds, hd0, hdneg⟩ := val_discountPaise (d := discount) hsubtotal
  have hfd : f.discountAmount.scaled = d := scaled_of_store hd hstored.discount
  have hdb := abs_lt.mp (hfd ▸ f.discountAmount.bound)
  have htaxable : (subtotalPaise (items.map (·.moneyLine)) -
      discountPaise (subtotalPaise (items.map (·.moneyLine))) discount).val =
      ((f.subtotal.scaled - d : ℤ) : ℚ) :=
    Binary64.val_sub_intCast hsubtotal hd (by rw [abs_le]; omega)
  obtain ⟨c, hc, hc0, -⟩ := val_serviceChargePaise sc
    (Binary64.zero_le_sub (discountPaise_le (subtotalPaise (items.map (·.moneyLine))) discount))
  have hfc : f.serviceChargeAmount.scaled = c := scaled_of_store hc hstored.serviceCharge
  have hcle : c ≤ 11 * (f.subtotal.scaled - d) := by
    have hle := serviceCharge_le hpercent htaxable (by omega) (by omega)
    rw [hc] at hle
    exact_mod_cast hle
  refine ⟨hsum, hexact, fun hpos => ?_, fun hnone => ?_⟩
  · have := hd0 hpos.le
    unfold taxablePaise
    split <;> constructor <;> omega
  · have hsd : f.subtotal.scaled = d := by
      rcases lt_or_eq_of_le hnone with hlt | heq
      · exact (hdneg hlt).symm
      · have := hd0 heq.ge
        omega
    unfold taxablePaise
    split <;> omega

/-! ### The groups -/

/-- The paise of the lines of a code and rate. -/
def groupPaise (menu : List MenuItem) (items : List Billing.OrderItem)
    (k : String × Binary64) : ℤ :=
  ((items.filter fun i => (hsnByItem menu i.itemId, i.taxRate.toNumber) = k).map
    (·.lineTotal.scaled)).sum

/-- The groups' paise are all of the lines'. -/
theorem sum_groupPaise (menu : List MenuItem) (items : List Billing.OrderItem) :
    ((hsnGroups menu items).rows.map fun g => groupPaise menu items g.1).sum =
      (items.map (·.lineTotal.scaled)).sum :=
  Grouping.sum_groups (·.lineTotal.scaled) items

/-- The taxable value of a group in proportion to its lines, rounded in doubles. -/
def sharePaise (f : Billing.OrderFigures) (paise : ℤ) : ℤ :=
  ⌊(Binary64.ofRat paise * Binary64.ofRat (taxablePaise f) /
    Binary64.ofRat f.subtotal.scaled).val + 1 / 2⌋

/-- The taxable value of a group in proportion to its lines. -/
def exactShare (f : Billing.OrderFigures) (paise : ℤ) : ℚ :=
  paise * taxablePaise f / f.subtotal.scaled

/-- The tax on a group's share, rounded in doubles. -/
def groupTax (share : ℤ) (rate : Binary64) : ℤ := ⌊(Binary64.ofRat share * rate / 100).val + 1 / 2⌋

theorem eq_ofRat_of_val {x : Binary64} {m : ℤ} (hx : x.val = m) : x = .ofRat m := by
  rw [← hx, Binary64.ofRat_val]

/-- A product over a divisor, rounded to a whole number. -/
theorem val_nearest_mul_div {x y z : Binary64} {n : ℤ} (hz : 0 < z.val)
    (h : |x.val * y.val| ≤ n * z.val) (hn : 2 * n ≤ 2 ^ 53) :
    (x * y / z).nearestInt.val = ⌊(x * y / z).val + 1 / 2⌋ ∧ |⌊(x * y / z).val + 1 / 2⌋| ≤ 2 * n := by
  have hmul : |(x * y).val| ≤ 2 * |x.val * y.val| := by
    have herror := Binary64.abs_round_sub_le (x.val * y.val)
    have htri := abs_sub_abs_le_abs_sub (Binary64.round (x.val * y.val)) (x.val * y.val)
    have hu : Binary64.unitRoundoff ≤ 1 := by norm_num [Binary64.unitRoundoff]
    have hle := mul_le_mul_of_nonneg_right hu (abs_nonneg (x.val * y.val))
    rw [Binary64.val_mul]
    linarith
  have hdiv : |(x * y / z).val| ≤ ((2 * n : ℤ) : ℚ) := by
    rw [Binary64.val_div]
    refine Binary64.abs_round_le ?_ hn
    rw [abs_div, abs_of_pos hz, div_le_iff₀ hz]
    push_cast
    linarith
  exact Binary64.val_nearestInt_of_abs_le hdiv hn

/-- The rate of a group is that of a line. -/
theorem rate_of_group {items : List Billing.OrderItem} {menu : List MenuItem}
    {g : (String × Binary64) × Binary64} 
    (hg : g ∈ (hsnGroups menu items).rows) : ∃ i ∈ items, g.1.2 = i.taxRate.toNumber := by
  have hfind : Grouping.value (hsnGroups menu items) g.1 = some g.2 := by
    rw [Grouping.value, KeyedTable.find?_eq_some.mpr ⟨hg, rfl⟩]
    rfl
  have hvalue : Grouping.value (hsnGroups menu items) g.1 = _ := Grouping.value_group items g.1
  rw [hfind] at hvalue
  split at hvalue
  · cases hvalue
  · obtain ⟨i, hi⟩ := List.exists_mem_of_ne_nil _ ‹_›
    obtain ⟨hi, hkey⟩ := List.mem_filter.mp hi
    exact ⟨i, hi, (congrArg Prod.snd (of_decide_eq_true hkey)).symm⟩

section Groups

variable {f : Billing.OrderFigures} {items : List Billing.OrderItem} (h : Billed f items)
  (menu : List MenuItem)

include h

theorem abs_groupPaise_le (k : String × Binary64) : |groupPaise menu items k| ≤ 10 ^ 12 ∧
    ((items.filter fun i => (hsnByItem menu i.itemId, i.taxRate.toNumber) = k).map
      fun i => |i.lineTotal.scaled|).sum ≤ 10 ^ 12 := by
  have hle : ((items.filter fun i => (hsnByItem menu i.itemId, i.taxRate.toNumber) = k).map
      fun i => |i.lineTotal.scaled|).sum ≤ 10 ^ 12 := by
    refine le_trans ((List.filter_sublist.map _).sum_le_sum fun x hx => ?_) h.size
    obtain ⟨i, -, rfl⟩ := List.mem_map.mp hx
    exact abs_nonneg _
  refine ⟨le_trans ?_ hle, hle⟩
  have habs := List.le_sum_of_subadditive (fun x : ℤ => |x|) abs_zero.le abs_add_le
    ((items.filter fun i => (hsnByItem menu i.itemId, i.taxRate.toNumber) = k).map
      (·.lineTotal.scaled))
  rw [List.map_map] at habs
  exact habs

/-- The paise of a group are added up exactly. -/
theorem val_group {g : (String × Binary64) × Binary64} (hg : g ∈ (hsnGroups menu items).rows) :
    g.2.val = groupPaise menu items g.1 := by
  have hfind : Grouping.value (hsnGroups menu items) g.1 = some g.2 := by
    rw [Grouping.value, KeyedTable.find?_eq_some.mpr ⟨hg, rfl⟩]
    rfl
  have hvalue : (Grouping.value (hsnGroups menu items) g.1).getD 0 = _ :=
    Grouping.getD_value_group items g.1
  rw [hfind, Option.getD_some] at hvalue
  rw [hvalue, groupPaise]
  refine Binary64.val_foldl_add_intCast _ _ _ (fun i _ => val_toPaise_toNumber i.lineTotal) ?_
  have := (abs_groupPaise_le h menu g.1).2
  omega

/-- A group's share of the taxable value. -/
theorem val_groupTaxable {g : (String × Binary64) × Binary64}
    (hg : g ∈ (hsnGroups menu items).rows) :
    (groupTaxablePaise (toPaise f.subtotal.toNumber) (toPaise (taxableOf f)) g.2).val =
        sharePaise f (groupPaise menu items g.1) ∧
      |sharePaise f (groupPaise menu items g.1)| ≤ 24 * 10 ^ 12 := by
  have hsubtotal := val_toPaise_toNumber f.subtotal
  obtain ⟨heq, hsmall⟩ := val_toPaise_taxableOf f
  have htaxable : (toPaise (taxableOf f)).val = taxablePaise f := by
    rw [heq]
    exact val_toPaise_ofRat (by omega)
  have hgroup := val_group h menu hg
  have hsize := (abs_groupPaise_le h menu g.1).1
  unfold sharePaise
  rw [← eq_ofRat_of_val hsubtotal, ← eq_ofRat_of_val htaxable, ← eq_ofRat_of_val hgroup]
  unfold groupTaxablePaise
  by_cases hpos : 0 < f.subtotal.scaled
  · have hposq : (0 : ℚ) < (toPaise f.subtotal.toNumber).val := by
      rw [hsubtotal]
      exact_mod_cast hpos
    rw [if_pos (by rw [Binary64.lt_def, Binary64.val_zero]; exact hposq)]
    obtain ⟨hT0, hT⟩ := h.taxable hpos
    refine val_nearest_mul_div (n := 12 * 10 ^ 12) hposq ?_ (by norm_num)
    rw [hgroup, htaxable, hsubtotal, abs_mul]
    have hprod : |groupPaise menu items g.1| * |taxablePaise f| ≤
        10 ^ 12 * (12 * f.subtotal.scaled) := by
      rw [abs_of_nonneg hT0]
      exact mul_le_mul hsize hT hT0 (by norm_num)
    have hprodq : (|(groupPaise menu items g.1 : ℚ)|) * |(taxablePaise f : ℚ)| ≤
        10 ^ 12 * (12 * f.subtotal.scaled) := by exact_mod_cast hprod
    push_cast
    linarith
  · -- nothing is taxed where the lines come to nothing
    have hT0 := h.untaxable (not_lt.mp hpos)
    have hnone : toPaise (taxableOf f) = 0 := by
      apply Binary64.ext
      rw [htaxable, hT0]
      simp
    rw [if_neg (by rw [Binary64.lt_def, hsubtotal, Binary64.val_zero]; exact_mod_cast hpos), hnone]
    have hzero : (g.2 * 0 / toPaise f.subtotal.toNumber).val = 0 := by
      rw [Binary64.val_div, Binary64.val_mul, Binary64.val_zero, mul_zero, Binary64.round_zero,
        zero_div, Binary64.round_zero]
    rw [hzero]
    norm_num

end Groups

/-- The tax on a group's share. -/
theorem val_groupTax {items : List Billing.OrderItem} {menu : List MenuItem}
    {g : (String × Binary64) × Binary64} (hg : g ∈ (hsnGroups menu items).rows)
    {share : Binary64} {k : ℤ} (hshare : share.val = k) (hk : |k| ≤ 24 * 10 ^ 12) :
    (groupTaxPaise share g.1.2).val = groupTax k g.1.2 ∧ |groupTax k g.1.2| ≤ 48 * 10 ^ 13 := by
  have hrate : |g.1.2.val| ≤ 1000 := by
    obtain ⟨i, -, hi⟩ := rate_of_group hg
    have hbound : |(i.taxRate.scaled : ℚ)| ≤ 10 ^ 5 := by exact_mod_cast i.taxRate.bound.le
    have habs : |i.taxRate.toNumber.val| ≤ ((1000 : ℤ) : ℚ) := by
      refine Binary64.abs_round_le ?_ (by norm_num)
      rw [abs_div, abs_of_pos (by norm_num : (0 : ℚ) < 10 ^ 2)]
      push_cast
      linarith
    rw [hi]
    exact_mod_cast habs
  unfold groupTaxPaise groupTax
  rw [← eq_ofRat_of_val hshare]
  refine val_nearest_mul_div (n := 24 * 10 ^ 13) (by rw [val_hundred]; norm_num) ?_ (by norm_num)
  have hkq : |(k : ℚ)| ≤ 24 * 10 ^ 12 := by exact_mod_cast hk
  rw [hshare, val_hundred, abs_mul]
  have := mul_le_mul hkq hrate (abs_nonneg _) (by norm_num)
  push_cast
  linarith

/-! ### Amounts in parts -/

/-- Three amounts of so many paise, in rupees. -/
structure Parts (cgst sgst igst : Binary64) (c s i : ℤ) : Prop where
  cgst_eq : cgst = .ofRat (c / 10 ^ 2)
  sgst_eq : sgst = .ofRat (s / 10 ^ 2)
  igst_eq : igst = .ofRat (i / 10 ^ 2)
  size : |c| + |s| + |i| ≤ 5 * 10 ^ 14

/-- Three amounts of so many paise. -/
structure InPaise (cgst sgst igst : Binary64) (c s i : ℤ) : Prop where
  cgst : (toPaise cgst).val = c
  sgst : (toPaise sgst).val = s
  igst : (toPaise igst).val = i

namespace Parts

variable {x y z : Binary64} {c s i : ℤ}

theorem inPaise (h : Parts x y z c s i) : InPaise x y z c s i := by
  obtain ⟨rfl, rfl, rfl, hsize⟩ := h
  have hc := abs_nonneg c
  have hs := abs_nonneg s
  have hi := abs_nonneg i
  exact ⟨val_toPaise_ofRat (by omega), val_toPaise_ofRat (by omega), val_toPaise_ofRat (by omega)⟩

/-- The parts together, rounded to two decimals. -/
theorem total (h : Parts x y z c s i) : r2 (x + y + z) = .ofRat ((c + s + i : ℤ) / 10 ^ 2) := by
  obtain ⟨rfl, rfl, rfl, hsize⟩ := h
  refine r2_eq_ofRat ?_
  have hadd := ((approx_ofRat_paise c).add (approx_ofRat_paise s)).add
    ((approx_ofRat_paise i).mono (n := 2) (by omega))
  rw [← add_div, ← add_div, ← add_div, ← add_div, ← Int.cast_add, ← Int.cast_add,
    ← Int.cast_add, ← Int.cast_add] at hadd
  refine val_toPaise_of_near (abs_paise_sub_lt hadd ?_) ?_
  · have hsizeq : ((|c| + |s| + |i| : ℤ) : ℚ) ≤ 5 * 10 ^ 14 := by exact_mod_cast hsize
    refine lt_of_le_of_lt (mul_le_mul_of_nonneg_left hsizeq (Binary64.growth_nonneg _)) ?_
    norm_num [Binary64.growth, Binary64.unitRoundoff]
  · have h₁ := abs_add_le (c + s) i
    have h₂ := abs_add_le c s
    omega

end Parts

theorem zero_eq_ofRat : (0 : Binary64) = .ofRat (((0 : ℤ) : ℚ) / 10 ^ 2) := by
  apply Binary64.ext
  simp

/-- The halves of an amount, or all of it, rounded down. -/
theorem splitTax_parts {x : Binary64} {A : ℤ} (hx : x = .ofRat (A / 10 ^ 2)) (hA : |A| ≤ 48 * 10 ^ 13)
    (sellerState buyerGstin : Option String) :
    Parts (splitTax x sellerState buyerGstin).cgst (splitTax x sellerState buyerGstin).sgst
      (splitTax x sellerState buyerGstin).igst
      (if isInterState sellerState buyerGstin then 0 else A / 2)
      (if isInterState sellerState buyerGstin then 0 else A - A / 2)
      (if isInterState sellerState buyerGstin then A else 0) := by
  have hpaise : (toPaise x).val = A := by
    rw [hx]
    exact val_toPaise_ofRat (by omega)
  unfold splitTax
  cases isInterState sellerState buyerGstin with
  | true => exact ⟨zero_eq_ofRat, zero_eq_ofRat, r2_eq_ofRat hpaise, by simp; omega⟩
  | false =>
    obtain ⟨-, hfloor⟩ := val_half hpaise (by omega)
    have hrest : (toPaise x - (toPaise x / 2).floor).val = ((A - A / 2 : ℤ) : ℚ) :=
      Binary64.val_sub_intCast hpaise hfloor (by rw [abs_le] at hA ⊢; omega)
    refine ⟨fromPaise_eq_ofRat hfloor, fromPaise_eq_ofRat hrest, zero_eq_ofRat, ?_⟩
    simp only [Bool.false_eq_true, if_false, abs_zero, add_zero]
    have h₁ : |A / 2| ≤ 24 * 10 ^ 13 := by
      rw [abs_le] at hA ⊢
      omega
    have h₂ : |A - A / 2| ≤ 24 * 10 ^ 13 + 1 := by
      rw [abs_le] at hA ⊢
      omega
    omega

/-- The row of a group, in its parts. -/
theorem hsnRow_parts (hsn : String) (rate : Binary64) {share tax : Binary64} {k m : ℤ}
    (hshare : share.val = k) (hk : |k| ≤ 24 * 10 ^ 12) (htax : tax.val = m) (hm : |m| ≤ 48 * 10 ^ 13)
    (interState : Bool) :
    (toPaise (hsnRow hsn rate share tax interState).taxable).val = k ∧
      Parts (hsnRow hsn rate share tax interState).cgst (hsnRow hsn rate share tax interState).sgst
        (hsnRow hsn rate share tax interState).igst
        (if interState then 0 else (m + 1) / 2) (if interState then 0 else (m + 1) / 2)
        (if interState then m else 0) := by
  have hround : toPaise (fromPaise share) = share := toPaise_fromPaise hshare (by omega)
  unfold hsnRow
  cases interState with
  | true =>
    refine ⟨by simp only [if_true]; rw [hround, hshare], zero_eq_ofRat, zero_eq_ofRat,
      fromPaise_eq_ofRat htax, by simp; omega⟩
  | false =>
    obtain ⟨hhalf, -⟩ := val_half htax (by omega)
    have hfloor : ⌊(tax / 2).val + 1 / 2⌋ = (m + 1) / 2 := by
      rw [hhalf, ← add_div]
      exact_mod_cast Rat.floor_intCast_div_natCast (m + 1) 2
    have habs : |(m + 1) / 2| ≤ 24 * 10 ^ 13 + 1 := by
      rw [abs_le] at hm ⊢
      omega
    have hnearest : (tax / 2).nearestInt.val = (((m + 1) / 2 : ℤ) : ℚ) := by
      rw [Binary64.nearestInt, hfloor]
      exact Binary64.val_ofRat_intCast (by omega)
    refine ⟨by simp only [Bool.false_eq_true, if_false]; rw [hround, hshare],
      fromPaise_eq_ofRat hnearest, fromPaise_eq_ofRat hnearest, zero_eq_ofRat, ?_⟩
    simp only [Bool.false_eq_true, if_false, abs_zero, add_zero]
    omega

/-- Half of so many paise, rounded in rupees. -/
def halfPaise (p : ℤ) : ℤ := ⌊(Binary64.ofRat (p / 10 ^ 2) / 2 * 100).val + 1 / 2⌋

/-- A row that is cast again, in paise. -/
theorem recastRow_inPaise {row : HsnSummaryRow} {c s i : ℤ}
    (h : Parts row.cgst row.sgst row.igst c s i) (interState : Bool) :
    InPaise (recastRow interState row).cgst (recastRow interState row).sgst
      (recastRow interState row).igst
      (if interState then 0 else halfPaise (c + s + i)) (if interState then 0 else halfPaise (c + s + i))
      (if interState then c + s + i else 0) := by
  have hp : |c + s + i| ≤ 5 * 10 ^ 14 := by
    have h₁ := abs_add_le (c + s) i
    have h₂ := abs_add_le c s
    have := h.size
    omega
  unfold recastRow
  rw [h.total]
  set p := c + s + i
  have hzero : (toPaise 0).val = ((0 : ℤ) : ℚ) := by simp
  cases interState with
  | true => exact ⟨hzero, hzero, val_toPaise_ofRat (by omega)⟩
  | false =>
    have hpq : |(p : ℚ)| ≤ 5 * 10 ^ 14 := by exact_mod_cast hp
    have hrupees : |(Binary64.ofRat (p / 10 ^ 2)).val| ≤ ((5 * 10 ^ 12 : ℤ) : ℚ) := by
      refine Binary64.abs_round_le ?_ (by norm_num)
      rw [abs_div, abs_of_pos (by norm_num : (0 : ℚ) < 10 ^ 2)]
      push_cast
      linarith
    have hhalf : |(Binary64.ofRat (p / 10 ^ 2) / 2).val| ≤ ((5 * 10 ^ 12 : ℤ) : ℚ) := by
      refine Binary64.abs_round_le ?_ (by norm_num)
      rw [abs_div, Binary64.val_ofNat_of_le (by norm_num)]
      norm_num at hrupees ⊢
      linarith
    have hpaise : |(Binary64.ofRat (p / 10 ^ 2) / 2 * 100).val| ≤ ((5 * 10 ^ 14 : ℤ) : ℚ) := by
      refine Binary64.abs_round_le ?_ (by norm_num)
      rw [abs_mul, val_hundred]
      push_cast at hhalf ⊢
      norm_num at hhalf ⊢
      linarith
    obtain ⟨hval, hle⟩ := Binary64.val_nearestInt_of_abs_le hpaise (by norm_num)
    have hto : (toPaise (r2 (Binary64.ofRat (p / 10 ^ 2) / 2))).val = halfPaise p := by
      rw [r2_eq_ofRat hval]
      exact val_toPaise_ofRat (le_trans hle (by norm_num))
    exact ⟨hto, hto, hzero⟩

/-! ### When the rows add up -/

theorem sumPaise_map {α : Type} {row : α → HsnSummaryRow} (part : HsnSummaryRow → Binary64)
    {k : α → ℤ} (gs : List α) (h : ∀ g ∈ gs, (toPaise (part (row g))).val = k g) :
    sumPaise part (gs.map row) = ((gs.map k).sum : ℤ) := by
  rw [sumPaise, List.map_map, Int.cast_list_sum, List.map_map]
  exact congrArg List.sum (List.map_congr_left h)

/-- The rows add up to an invoice if their shares and taxes do, and the tax can be halved where it
is. -/
theorem reconciles_iff {α : Type} {inv : InvoiceFigures} {gs : List α} {row : α → HsnSummaryRow}
    {interState : Bool} {taxable tax : ℤ} {share whole half : α → ℤ}
    (hrows : inv.hsnSummary = gs.map row) (htaxable : (toPaise inv.taxableValue).val = taxable)
    (hheader : InPaise inv.cgst inv.sgst inv.igst (if interState then 0 else tax / 2)
      (if interState then 0 else tax - tax / 2) (if interState then tax else 0))
    (hshare : ∀ g ∈ gs, (toPaise (row g).taxable).val = share g)
    (hrow : ∀ g ∈ gs, InPaise (row g).cgst (row g).sgst (row g).igst
      (if interState then 0 else half g) (if interState then 0 else half g)
      (if interState then whole g else 0)) :
    inv.Reconciles ↔ (gs.map share).sum = taxable ∧
      (gs.map fun g => if interState then whole g else 2 * half g).sum = tax ∧
        (interState = false → Even tax) := by
  have htaxables : sumPaise (·.taxable) inv.hsnSummary = (toPaise inv.taxableValue).val ↔
      (gs.map share).sum = taxable := by
    rw [hrows, sumPaise_map HsnSummaryRow.taxable gs hshare, htaxable]
    exact Int.cast_inj
  have hcgst := sumPaise_map HsnSummaryRow.cgst gs fun g hg => (hrow g hg).cgst
  have hsgst := sumPaise_map HsnSummaryRow.sgst gs fun g hg => (hrow g hg).sgst
  have higst := sumPaise_map HsnSummaryRow.igst gs fun g hg => (hrow g hg).igst
  rw [← hrows] at hcgst hsgst higst
  have hparts : inv.Reconciles ↔ (gs.map share).sum = taxable ∧
      (gs.map fun g => if interState then 0 else half g).sum =
          (if interState then 0 else tax / 2) ∧
      (gs.map fun g => if interState then 0 else half g).sum =
          (if interState then 0 else tax - tax / 2) ∧
      (gs.map fun g => if interState then whole g else 0).sum = if interState then tax else 0 := by
    constructor
    · intro h
      refine ⟨htaxables.mp h.taxable, ?_, ?_, ?_⟩
      · exact Int.cast_inj.mp (hcgst.symm.trans (h.cgst.trans hheader.cgst))
      · exact Int.cast_inj.mp (hsgst.symm.trans (h.sgst.trans hheader.sgst))
      · exact Int.cast_inj.mp (higst.symm.trans (h.igst.trans hheader.igst))
    · rintro ⟨ht, hc, hs, hi⟩
      refine ⟨htaxables.mpr ht, ?_, ?_, ?_⟩
      · rw [hcgst, hheader.cgst, hc]
      · rw [hsgst, hheader.sgst, hs]
      · rw [higst, hheader.igst, hi]
  rw [hparts]
  cases interState with
  | true =>
    have hzero : (gs.map fun _ => (0 : ℤ)).sum = 0 := by simp
    simp only [if_true, hzero, true_and, Bool.true_eq_false, false_imp_iff, and_true]
  | false =>
    have hzero : (gs.map fun _ => (0 : ℤ)).sum = 0 := by simp
    simp only [Bool.false_eq_true, if_false, hzero, and_true, true_imp_iff]
    have hdouble : (gs.map fun g => 2 * half g).sum = 2 * (gs.map half).sum :=
      List.sum_map_mul_left _ _ _
    rw [hdouble, Int.even_iff]
    change _ ∧ (gs.map half).sum = _ ∧ (gs.map half).sum = _ ↔ _
    refine and_congr Iff.rfl ⟨fun h => ?_, fun h => ?_⟩ <;> omega

/-- The rates of the groups, and their paise. -/
def rateGroups (menu : List MenuItem) (items : List Billing.OrderItem) : List (Binary64 × ℤ) :=
  (hsnGroups menu items).rows.map fun g => (g.1.2, groupPaise menu items g.1)

/-- The tax of a row as it is first split: all of it, or twice a half. -/
def rowTax (interState : Bool) (tax : ℤ) : ℤ := if interState then tax else 2 * ((tax + 1) / 2)

/-- The tax of a row that is cast again. -/
def recastTax (interState : Bool) (tax : ℤ) : ℤ := if interState then tax else 2 * halfPaise tax

/-- The errors of the rows cancel: what their shares are off adds up to nothing, and what their
taxes are off adds up to what the order's tax is. -/
structure RoundingsCancel (f : Billing.OrderFigures) (groups : List (Binary64 × ℤ))
    (taxOf : ℤ → ℤ) : Prop where
  shares : (groups.map fun g => (sharePaise f g.2 : ℚ) - exactShare f g.2).sum = 0
  taxes : (groups.map fun g => (taxOf (groupTax (sharePaise f g.2) g.1) : ℚ) -
      exactShare f g.2 * g.1.val / 100).sum =
    f.taxAmount.scaled - (groups.map fun g => exactShare f g.2 * g.1.val / 100).sum

instance (f : Billing.OrderFigures) (groups : List (Binary64 × ℤ)) (taxOf : ℤ → ℤ) :
    Decidable (RoundingsCancel f groups taxOf) :=
  decidable_of_iff (_ ∧ _) ⟨fun h => ⟨h.1, h.2⟩, fun h => ⟨h.shares, h.taxes⟩⟩

/-- The exact shares of the groups are the taxable value. -/
theorem sum_exactShare {f : Billing.OrderFigures} {items : List Billing.OrderItem}
    (h : Billed f items) (menu : List MenuItem) :
    ((rateGroups menu items).map fun g => exactShare f g.2).sum = taxablePaise f := by
  have hsum : ((rateGroups menu items).map fun g => (g.2 : ℚ)).sum = f.subtotal.scaled := by
    have hgroups := sum_groupPaise menu items
    rw [h.subtotal] at hgroups
    rw [rateGroups, List.map_map, ← hgroups, Int.cast_list_sum, List.map_map]
    rfl
  have hfactor : ((rateGroups menu items).map fun g => exactShare f g.2).sum =
      f.subtotal.scaled * (taxablePaise f / f.subtotal.scaled : ℚ) := by
    rw [← hsum, ← List.sum_map_mul_right]
    simp only [exactShare, mul_div_assoc, hsum]
  rw [hfactor]
  rcases eq_or_ne f.subtotal.scaled 0 with hzero | hne
  · rw [h.untaxable hzero.le, hzero]
    simp
  · exact mul_div_cancel₀ _ (by exact_mod_cast hne)

/-- The errors cancel if what is rounded adds up. -/
theorem roundingsCancel_iff {f : Billing.OrderFigures} {items : List Billing.OrderItem}
    (h : Billed f items) (menu : List MenuItem) (taxOf : ℤ → ℤ) :
    RoundingsCancel f (rateGroups menu items) taxOf ↔
      ((rateGroups menu items).map fun g => sharePaise f g.2).sum = taxablePaise f ∧
      ((rateGroups menu items).map fun g => taxOf (groupTax (sharePaise f g.2) g.1)).sum =
        f.taxAmount.scaled := by
  have hsub : ∀ a b : Binary64 × ℤ → ℚ, ((rateGroups menu items).map fun g => a g - b g).sum =
      ((rateGroups menu items).map a).sum - ((rateGroups menu items).map b).sum := by
    intro a b
    rw [eq_sub_iff_add_eq, ← List.sum_map_add]
    exact congrArg List.sum (List.map_congr_left fun g _ => sub_add_cancel _ _)
  have hcancel : RoundingsCancel f (rateGroups menu items) taxOf ↔ _ ∧ _ :=
    ⟨fun h => ⟨h.shares, h.taxes⟩, fun h => ⟨h.1, h.2⟩⟩
  rw [hcancel, hsub, hsub, sum_exactShare h, sub_eq_zero, sub_left_inj]
  refine and_congr ?_ ?_
  · rw [← @Int.cast_inj ℚ, Int.cast_list_sum, List.map_map]
    rfl
  · rw [← @Int.cast_inj ℚ, Int.cast_list_sum, List.map_map]
    rfl

/-- The invoice of a settled order, as it is worked out. -/
theorem detail_eq_ok {outlet : InvoiceOutlet} {menu : List MenuItem} {order : Billing.Order}
    {items : List Billing.OrderItem} {stored : Option StoredInvoice} {inv : InvoiceDto}
    (h : detail outlet menu order items stored = .ok inv) :
    let split := splitTax order.figures.taxAmount.toNumber
      (outlet.placeOfSupply.or (stateOf outlet.gstin)) (stored.bind (·.buyerGstin))
    inv.sellerGstin = outlet.gstin ∧ inv.placeOfSupply = outlet.placeOfSupply ∧
      inv.buyerGstin = stored.bind (·.buyerGstin) ∧
      inv.toInvoiceFigures = ⟨taxableOf order.figures, split.cgst, split.sgst, split.igst,
        buildHsnSummary menu order.figures items split.interState⟩ := by
  unfold detail at h
  obtain ⟨_, -, h⟩ := bind_eq_ok.mp h
  obtain ⟨_, -, h⟩ := bind_eq_ok.mp h
  cases pure_eq_ok.mp h
  exact ⟨rfl, rfl, rfl, rfl⟩

theorem generateIrn_eq_ok {inv : InvoiceDto} {buyerGstin : Option String} {irn : InvoiceFigures}
    (h : generateIrn inv buyerGstin = .ok irn) :
    let split := splitTax (r2 (inv.cgst + inv.sgst + inv.igst))
      (inv.placeOfSupply.or (stateOf inv.sellerGstin)) (buyerGstin.or inv.buyerGstin)
    irn = ⟨inv.taxableValue, split.cgst, split.sgst, split.igst,
      inv.hsnSummary.map (recastRow split.interState)⟩ := by
  unfold generateIrn at h
  obtain ⟨_, -, h⟩ := bind_eq_ok.mp h
  obtain ⟨_, -, h⟩ := bind_eq_ok.mp h
  obtain ⟨_, -, h⟩ := bind_eq_ok.mp h
  exact (pure_eq_ok.mp h).symm

theorem interState_splitTax (x : Binary64) (sellerState buyerGstin : Option String) :
    (splitTax x sellerState buyerGstin).interState = isInterState sellerState buyerGstin := by
  unfold splitTax
  cases isInterState sellerState buyerGstin <;> rfl

/-- The state of the outlet that an invoice is split for. -/
def sellerState (outlet : InvoiceOutlet) : Option String :=
  outlet.placeOfSupply.or (stateOf outlet.gstin)

theorem taxable_recastRow (interState : Bool) (row : HsnSummaryRow) :
    (recastRow interState row).taxable = row.taxable := by
  unfold recastRow
  cases interState <;> rfl

/-- The parts of a row are its tax. -/
theorem rowTax_eq (b : Bool) (tax : ℤ) :
    (if b then 0 else (tax + 1) / 2) + (if b then 0 else (tax + 1) / 2) + (if b then tax else 0) =
      rowTax b tax := by
  cases b
  · simp only [rowTax, Bool.false_eq_true, if_false]
    omega
  · simp [rowTax]

/-- The parts of the invoice's tax are all of it. -/
theorem tax_eq (b : Bool) (tax : ℤ) :
    (if b then 0 else tax / 2) + (if b then 0 else tax - tax / 2) + (if b then tax else 0) = tax := by
  cases b
  · simp only [Bool.false_eq_true, if_false]
    omega
  · simp

theorem fivePercent_bound : |(500 : ℤ)| < 10 ^ 5 := by decide

/-- A line of a dish at five per cent. -/
def thali (price : Amount) : Billing.OrderItem :=
  ⟨⟨0, 1⟩, ⟨0, 0⟩, "thali", .one, price, price, ⟨500, fivePercent_bound⟩, none, none, false, none, none,
    ⟨"Thali", none, none, none, none, .pending, none, none, []⟩⟩

/-- A settled order of one dish. -/
def soldThali (price : Amount) : Billing.Order :=
  { Billing.newOrder ⟨0, 0⟩ "o" .takeaway none none none with
    status := .settled
    billNumber := some "B-1"
    figures := ((Billing.figuresOf (computeBill [(thali price).moneyLine] ⟨0, none, false⟩)
      none).toOption).getD .zero }

/-- An outlet in Karnataka. -/
def bengaluru : InvoiceOutlet := ⟨some "29AAAAA0000A1Z5", none⟩

/-- The invoice of a dish, as it is worked out. -/
def thaliInvoice (price : Amount) : Except String InvoiceDto :=
  detail bengaluru [] (soldThali price) [thali price] none

theorem thaliInvoice_ok (price : Amount) : ∃ inv, thaliInvoice price = .ok inv :=
  ⟨_, rfl⟩

theorem figured_soldThali :
    Figured (soldThali .hundred).figures [thali .hundred] ∧
      Figured (soldThali ⟨10020, by decide⟩).figures [thali ⟨10020, by decide⟩] :=
  ⟨⟨none, 0, false, by decide +kernel⟩, ⟨none, 0, false, by decide +kernel⟩⟩

end StelloKitchens.Invoices
