import StelloKitchens.Printing.TaxLines
import StelloKitchens.Shared.BillFigures

/-!
# The printed bill foots

The figures of a bill are computed together, in whole paise, so that they add up to its total. The
tax lines are worked out again when the bill is printed, from the lines and the stored figures.

## Main definitions

* `OrderForPrint.Figured` — the figures of an order are those of its lines.
* `BillDto.Foots` — the tax lines add up to the tax, and with the other figures to the total.

## Main results

* `consistent_of_stored` — what holds of the stored figures.
* `bill_foots` — a bill foots if and only if its tax is covered.
-/

namespace StelloKitchens.Printing

/-! ### The figures -/

open Checked in
theorem scaled_of_store {x : Binary64} {m : ℤ} (hx : x.val = m) {a : Amount}
    (h : Billing.store (fromPaise x) = .ok a) : a.scaled = m :=
  (ofNumber_fromPaise_eq_some hx).mp (orThrow_eq_ok.mp h)

/-- What the figures of a bill are stored as. -/
structure Stored (f : Billing.OrderFigures) (t : BillTotals) : Prop where
  subtotal : Billing.store t.subtotal = .ok f.subtotal
  discount : Billing.store t.discountAmount = .ok f.discountAmount
  serviceCharge : Billing.store t.serviceChargeAmount = .ok f.serviceChargeAmount
  tax : Billing.store t.taxAmount = .ok f.taxAmount
  roundOff : Billing.store t.roundOff = .ok f.roundOff
  total : Billing.store t.total = .ok f.total

open Checked in
theorem stored_of_figuresOf {totals : BillTotals} {sc : Option ServiceCharge}
    {f : Billing.OrderFigures} (h : Billing.figuresOf totals sc = .ok f) : Stored f totals := by
  unfold Billing.figuresOf at h
  obtain ⟨_, h₁, h⟩ := bind_eq_ok.mp h
  obtain ⟨_, h₂, h⟩ := bind_eq_ok.mp h
  obtain ⟨_, h₃, h⟩ := bind_eq_ok.mp h
  obtain ⟨_, -, h⟩ := bind_eq_ok.mp h
  obtain ⟨_, h₄, h⟩ := bind_eq_ok.mp h
  obtain ⟨_, h₅, h⟩ := bind_eq_ok.mp h
  obtain ⟨_, h₆, h⟩ := bind_eq_ok.mp h
  cases pure_eq_ok.mp h
  exact ⟨h₁, h₂, h₃, h₄, h₅, h₆⟩

/-- What holds of the figures of a bill, in paise. -/
structure Consistent (f : Billing.OrderFigures) : Prop where
  sum : f.subtotal.scaled - f.discountAmount.scaled + f.serviceChargeAmount.scaled +
    f.taxAmount.scaled + f.roundOff.scaled = f.total.scaled
  discount : 0 ≤ f.subtotal.scaled →
    0 ≤ f.discountAmount.scaled ∧ f.discountAmount.scaled ≤ f.subtotal.scaled
  below : f.subtotal.scaled < 0 → f.discountAmount.scaled = f.subtotal.scaled ∧
    f.taxAmount.scaled = 0 ∧ f.serviceChargeAmount.scaled = 0 ∧ f.roundOff.scaled = 0
  serviceCharge : 0 ≤ f.serviceChargeAmount.scaled
  tax : 0 < f.taxAmount.scaled → 0 < f.subtotal.scaled

theorem consistent_of_stored {lines : List MoneyLine} {opts : BillOptions}
    {f : Billing.OrderFigures} (hlines : ∀ l ∈ lines, ∃ m : ℤ, l.lineTotalPaise.val = m)
    (h : Stored f (computeBill lines opts)) : Consistent f := by
  obtain ⟨s, hs⟩ := val_subtotalPaise hlines
  obtain ⟨d, hd, hds, hd0, hdneg⟩ := val_discountPaise (d := opts.discountRupees) hs
  have hfs : f.subtotal.scaled = s := scaled_of_store hs h.subtotal
  have hfd : f.discountAmount.scaled = d := scaled_of_store hd h.discount
  have hsb := abs_lt.mp (hfs ▸ f.subtotal.bound)
  have hdb := abs_lt.mp (hfd ▸ f.discountAmount.bound)
  set S := subtotalPaise lines with hS
  set taxable := S - discountPaise S opts.discountRupees with htaxable
  have htaxval : taxable.val = ((s - d : ℤ) : ℚ) :=
    Binary64.val_sub_intCast hs hd (by rw [abs_le]; omega)
  have htax0 : 0 ≤ taxable := Binary64.zero_le_sub (discountPaise_le _ _)
  obtain ⟨c, hc, hc0, hcnone⟩ := val_serviceChargePaise opts.serviceCharge htax0
  have hfc : f.serviceChargeAmount.scaled = c := scaled_of_store hc h.serviceCharge
  have hcb := abs_lt.mp (hfc ▸ f.serviceChargeAmount.bound)
  set charge := serviceChargePaise taxable opts.serviceCharge with hcharge
  set tax := taxPaise (rawTaxPaise lines) (taxBasePaise taxable charge opts.serviceCharge) S with htax
  obtain ⟨t, ht, htpos⟩ : ∃ t : ℤ, tax.val = t ∧ (s ≤ 0 → t = 0) := by
    rw [htax, taxPaise]
    by_cases hpos : 0 < S
    · rw [if_pos hpos]
      obtain ⟨t, ht⟩ := Binary64.nearestInt_isInt
        (rawTaxPaise lines * taxBasePaise taxable charge opts.serviceCharge / S)
      refine ⟨t, ht, fun hle => absurd hle (not_le.mpr ?_)⟩
      rw [Binary64.lt_def, hs, Binary64.val_zero] at hpos
      exact_mod_cast hpos
    · rw [if_neg hpos]
      exact ⟨0, by simp, fun _ => rfl⟩
  have hft : f.taxAmount.scaled = t := scaled_of_store ht h.tax
  have htb := abs_lt.mp (hft ▸ f.taxAmount.bound)
  have hpre : (taxable + charge + tax).val = ((s - d + c + t : ℤ) : ℚ) := by
    refine Binary64.val_add_intCast (Binary64.val_add_intCast htaxval hc ?_) ht ?_ <;>
      rw [abs_le] <;> omega
  set pre := taxable + charge + tax with hpredef
  set total := if opts.roundOff then (pre / 100).nearestInt * 100 else pre with htotal
  obtain ⟨T, hT⟩ : ∃ T : ℤ, total.val = T := by
    rw [htotal]
    split
    · obtain ⟨k, hk⟩ := Binary64.nearestInt_isInt (pre / 100)
      rw [Binary64.val_mul, hk, val_hundred]
      exact_mod_cast Binary64.round_isInt (k * 100)
    · exact ⟨_, hpre⟩
  have hfT : f.total.scaled = T := scaled_of_store hT h.total
  have hTb := abs_lt.mp (hfT ▸ f.total.bound)
  have hround : (total - pre).val = ((T - (s - d + c + t) : ℤ) : ℚ) :=
    Binary64.val_sub_intCast hT hpre (by rw [abs_le]; omega)
  have hfr : f.roundOff.scaled = T - (s - d + c + t) := scaled_of_store hround h.roundOff
  rw [← hfs, ← hfd] at hds hd0 hdneg
  refine ⟨by omega, fun h => ⟨by omega, by omega⟩, fun hneg => ?_, by omega, fun hpos => ?_⟩
  · have hsd := hdneg hneg
    have hzero : taxable = 0 := by
      apply Binary64.ext
      rw [htaxval, Binary64.val_zero]
      exact_mod_cast (by omega : s - d = 0)
    have hc' := hcnone hzero
    have ht' := htpos (by omega)
    have hpre0 : pre = 0 := by
      apply Binary64.ext
      rw [hpre, Binary64.val_zero]
      exact_mod_cast (by omega : s - d + c + t = 0)
    have hT0 : T = 0 := by
      have htotal0 : total = 0 := by
        rw [htotal, hpre0, zero_div_binary64, nearestInt_zero, zero_mul_binary64, ite_self]
      rw [htotal0, Binary64.val_zero] at hT
      exact_mod_cast hT.symm
    omega
  · by_contra hle
    have := htpos (by omega)
    omega

/-- Where a bill is taxed, a line is. -/
theorem exists_taxed {lines : List MoneyLine} {opts : BillOptions} {f : Billing.OrderFigures}
    (h : Stored f (computeBill lines opts)) (htax : 0 < f.taxAmount.scaled) :
    ∃ l ∈ lines, l.taxRatePercent ≠ 0 := by
  by_contra hnone
  push Not at hnone
  have hraw : rawTaxPaise lines = 0 := by
    refine List.foldlRecOn lines _ (motive := fun s : Binary64 => s = 0) rfl fun s hs l hl => ?_
    rw [hs, hnone l hl]
    apply Binary64.ext
    simp [Binary64.val_add, Binary64.val_div, Binary64.val_mul]
  have hzero : f.taxAmount.scaled = 0 := by
    refine scaled_of_store (x := taxPaise (rawTaxPaise lines) _ _) ?_ h.tax
    rw [hraw, taxPaise, zero_mul_binary64, zero_div_binary64, nearestInt_zero, ite_self]
    simp
  omega

/-! ### The bill -/

/-- The figures of an order are those that are computed from its lines. -/
def OrderForPrint.Figured (order : OrderForPrint) : Prop :=
  ∃ (rules : Billing.BillingRules) (discount : Binary64) (plain : Bool),
    let sc := if plain then none else Billing.serviceChargeFor rules order.toOrder
    Billing.figuresOf (computeBill (order.items.map (·.moneyLine))
      ⟨discount, sc, !plain && rules.roundOffEnabled⟩) sc = .ok order.figures

/-- A bill adds up: the tax lines are not negative and add up to the tax, and with them the
figures add up to the total. -/
structure BillDto.Foots (b : BillDto) : Prop where
  nonneg : ∀ l ∈ b.taxLines, 0 ≤ l.amount
  tax : taxPaiseOf b.taxLines = (toPaise b.taxTotal).val
  total : (toPaise b.subtotal).val - (b.discounts.map fun d => (toPaise d.2).val).sum +
    (b.serviceCharge.elim 0 fun x => (toPaise x).val) + taxPaiseOf b.taxLines +
    (b.roundOff.elim 0 fun x => (toPaise x).val) = (toPaise b.total).val

/-- The lines are not worth less than nothing together, and their tax is covered. -/
def OrderForPrint.Covered (order : OrderForPrint) : Prop :=
  0 ≤ order.figures.subtotal.scaled ∧ (order.taxParams false).Covers

section Bill

variable {order : OrderForPrint}

theorem fits_taxParams (hsize : (order.items.map fun i => |i.lineTotal.scaled|).sum ≤ 2 * 10 ^ 13)
    (interState : Bool) : Fits (order.taxParams interState).lines := by
  have hpaise : ∀ i : Billing.OrderItem,
      (⟨i.lineTotal.toNumber, i.taxRate.toNumber⟩ : TaxedLine).paise = i.lineTotal.scaled := by
    intro i
    rw [TaxedLine.paise, val_toPaise_toNumber, Int.floor_intCast]
  refine ⟨fun l hl => ?_, fun l hl => ?_, fun l hl => ?_, ?_⟩
  · obtain ⟨i, -, rfl⟩ := List.mem_map.mp hl
    rw [hpaise, val_toPaise_toNumber]
  · obtain ⟨i, -, rfl⟩ := List.mem_map.mp hl
    rw [hpaise]
    exact i.lineTotal.bound.le
  · obtain ⟨i, -, rfl⟩ := List.mem_map.mp hl
    have hbound : |(i.taxRate.scaled : ℚ)| ≤ 10 ^ 5 := by exact_mod_cast i.taxRate.bound.le
    refine Binary64.abs_round_le (n := 1000) ?_ (by norm_num)
    rw [abs_div, abs_of_pos (by norm_num : (0 : ℚ) < 10 ^ 2)]
    push_cast
    linarith
  · refine le_trans (le_of_eq ?_) hsize
    rw [OrderForPrint.taxParams, List.map_map]
    exact congrArg List.sum (List.map_congr_left fun i _ => congrArg abs (hpaise i))

/-- Lines of which none is negative add up to no more than the subtotal. -/
theorem sum_lineTotal_le {items : List Billing.OrderItem} {subtotal : Amount}
    (hsubtotal : (subtotalPaise (items.map (·.moneyLine))).val = subtotal.scaled)
    (hnonneg : ∀ i ∈ items, 0 ≤ i.lineTotal.scaled) :
    (items.map fun i => |i.lineTotal.scaled|).sum ≤ subtotal.scaled := by
  have hmin := Binary64.min_le_val_foldl_add (fun i : Billing.OrderItem => toPaise i.lineTotal.toNumber)
    (fun i => |i.lineTotal.scaled|) items fun i hi =>
      ⟨by rw [val_toPaise_toNumber, abs_of_nonneg (hnonneg i hi)], abs_nonneg _⟩
  rw [subtotalPaise, List.foldl_map] at hsubtotal
  have hle := hmin.trans_eq hsubtotal
  have hbound := (abs_lt.mp subtotal.bound).2
  have hle' : min (items.map fun i => |i.lineTotal.scaled|).sum (2 ^ 53) ≤ subtotal.scaled := by
    exact_mod_cast hle
  rcases min_le_iff.mp hle' with h | h
  · exact h
  · omega

theorem rates_ne_nil {params : TaxLineParams} {l : TaxedLine} (hl : l ∈ params.lines)
    (hrate : l.taxRatePercent ≠ 0) : params.rates ≠ [] := by
  have hput : ∀ (groups : RateGroups) (l : TaxedLine), l.taxRatePercent ≠ 0 →
      (addToGroup groups l).rows ≠ [] := by
    intro groups l hrate
    rw [addToGroup, if_neg hrate]
    exact List.ne_nil_of_mem (KeyedTable.mem_put.mpr (.inl rfl))
  have hkeep : ∀ (ls : List TaxedLine) (groups : RateGroups), groups.rows ≠ [] →
      (ls.foldl addToGroup groups).rows ≠ [] := by
    intro ls groups hgroups
    refine List.foldlRecOn ls _ (motive := fun g : RateGroups => g.rows ≠ []) hgroups
      fun g hg l _ => ?_
    by_cases hrate : l.taxRatePercent = 0
    · rwa [addToGroup, if_pos hrate]
    · exact hput g l hrate
  have hgroups : (rateGroups params.lines).rows ≠ [] := by
    obtain ⟨before, after, hsplit⟩ := List.append_of_mem hl
    rw [rateGroups, hsplit, List.foldl_append, List.foldl_cons]
    exact hkeep after _ (hput _ l hrate)
  intro hnil
  have hlength := congrArg List.length hnil
  rw [TaxLineParams.rates, List.length_insertionSort, List.length_map] at hlength
  exact hgroups (List.length_eq_zero_iff.mp hlength)

theorem toNumber_ne_zero {a : Amount} : a.toNumber ≠ 0 ↔ a.scaled ≠ 0 := by
  have hiff : a.toNumber = 0 ↔ a.scaled = 0 := by
    constructor
    · intro h
      have hval := val_toPaise_toNumber a
      rw [h, toPaise_zero, Binary64.val_zero] at hval
      exact_mod_cast hval.symm
    · intro h
      apply Binary64.ext
      simp [Decimal.toNumber, h]
  exact not_congr hiff

theorem toNumber_pos {a : Amount} : 0 < a.toNumber ↔ 0 < a.scaled := by
  constructor
  · intro h
    by_contra hle
    refine absurd h (not_lt.mpr ?_)
    have hround := Binary64.round_mono (p := (a.scaled : ℚ) / 10 ^ 2) (q := 0)
      (div_nonpos_of_nonpos_of_nonneg (by exact_mod_cast not_lt.mp hle) (by positivity))
    rwa [Binary64.round_zero] at hround
  · intro h
    refine lt_of_le_of_ne ?_ (Ne.symm (toNumber_ne_zero.mpr h.ne'))
    exact Binary64.zero_le_ofRat (by positivity)

/-- What an order's own computation says of its stored figures. -/
structure Computed (order : OrderForPrint) : Prop where
  consistent : Consistent order.figures
  subtotal : (subtotalPaise (order.items.map (·.moneyLine))).val = order.figures.subtotal.scaled
  taxed : 0 < order.figures.taxAmount.scaled → ∃ i ∈ order.items, i.taxRate.toNumber ≠ 0
  waived : order.serviceChargeWaived = true → order.figures.serviceChargeAmount.scaled = 0

theorem OrderForPrint.Figured.computed (h : order.Figured) : Computed order := by
  obtain ⟨rules, discount, plain, hfigures⟩ := h
  have hstored := stored_of_figuresOf hfigures
  have hlines : ∀ l ∈ order.items.map (·.moneyLine), ∃ m : ℤ, l.lineTotalPaise.val = (m : ℚ) := by
    intro l hl
    obtain ⟨i, -, rfl⟩ := List.mem_map.mp hl
    exact ⟨_, val_toPaise_toNumber i.lineTotal⟩
  refine ⟨consistent_of_stored hlines hstored, ?_, fun htax => ?_, fun hwaived => ?_⟩
  · obtain ⟨m, hm⟩ := val_subtotalPaise hlines
    rw [hm, scaled_of_store hm hstored.subtotal]
  · obtain ⟨l, hl, hrate⟩ := exists_taxed hstored htax
    obtain ⟨i, hi, rfl⟩ := List.mem_map.mp hl
    exact ⟨i, hi, hrate⟩
  · have hnone : (if plain then none else Billing.serviceChargeFor rules order.toOrder) = none := by
      simp [Billing.serviceChargeFor, hwaived]
    have hcharge := hstored.serviceCharge
    rw [hnone] at hcharge
    exact scaled_of_store (m := 0) (by simp [serviceChargePaise]) hcharge

/-- The lines of an order can be added up. -/
theorem Computed.whole (h : Computed order)
    (hlines : (∃ i ∈ order.items, i.lineTotal.scaled < 0) → order.items.length ≤ 2000)
    (interState : Bool) : (order.taxParams interState).Whole order.figures.subtotal.scaled
      (order.figures.subtotal.scaled - order.figures.discountAmount.scaled)
      order.figures.taxAmount.scaled := by
  have hsize : (order.items.map fun i => |i.lineTotal.scaled|).sum ≤ 2 * 10 ^ 13 := by
    by_cases hneg : ∃ i ∈ order.items, i.lineTotal.scaled < 0
    · have hle : (order.items.map fun i => |i.lineTotal.scaled|).sum ≤
          (order.items.map fun i => |i.lineTotal.scaled|).length • (10 ^ 10 : ℤ) := by
        refine List.sum_le_card_nsmul _ _ fun x hx => ?_
        obtain ⟨i, -, rfl⟩ := List.mem_map.mp hx
        exact i.lineTotal.bound.le
      have hlength := hlines hneg
      rw [List.length_map, nsmul_eq_mul] at hle
      push_cast at hle
      omega
    · push Not at hneg
      have hle := sum_lineTotal_le h.subtotal hneg
      have hbound := (abs_lt.mp order.figures.subtotal.bound).2
      omega
  have hsubtotal := abs_lt.mp order.figures.subtotal.bound
  have hdiscount := abs_lt.mp order.figures.discountAmount.bound
  have hc := h.consistent
  have hbelow := hc.below
  have habove := hc.discount
  refine ⟨fits_taxParams hsize interState, val_toPaise_toNumber _, ?_, by omega, by omega,
    val_toPaise_toNumber _, order.figures.taxAmount.bound.le⟩
  exact Binary64.val_sub_intCast (val_toPaise_toNumber _) (val_toPaise_toNumber _)
    (by rw [abs_le]; omega)

/-- The figures of a printed bill, in paise. -/
theorem Computed.printed (h : Computed order) (outlet : OutletForPrint)
    (buyerGstin : Option String) (reprint : Bool) :
    let b := billFor order outlet buyerGstin reprint
    (b.discounts.map fun d => (toPaise d.2).val).sum =
        ((max 0 order.figures.discountAmount.scaled : ℤ) : ℚ) ∧
      (b.serviceCharge.elim 0 fun x => (toPaise x).val) = order.figures.serviceChargeAmount.scaled ∧
      (b.roundOff.elim 0 fun x => (toPaise x).val) = order.figures.roundOff.scaled := by
  refine ⟨?_, ?_, ?_⟩
  · dsimp only [billFor]
    by_cases hpos : 0 < order.figures.discountAmount.toNumber
    · rw [if_pos hpos, max_eq_right (toNumber_pos.mp hpos).le]
      simp
    · rw [if_neg hpos, max_eq_left (not_lt.mp (mt toNumber_pos.mpr hpos))]
      simp
  · have hnonneg := h.consistent.serviceCharge
    dsimp only [billFor]
    by_cases hwaived : order.serviceChargeWaived = true
    · rw [if_pos hwaived, h.waived hwaived]
      simp
    rw [if_neg hwaived]
    by_cases hpos : 0 < order.figures.serviceChargeAmount.toNumber
    · rw [if_pos hpos]
      simp
    · have hzero := mt toNumber_pos.mpr hpos
      rw [if_neg hpos, show order.figures.serviceChargeAmount.scaled = 0 by omega]
      simp
  · dsimp only [billFor]
    by_cases hzero : order.figures.roundOff.toNumber = 0
    · rw [if_neg (not_not.mpr hzero), not_not.mp (mt toNumber_ne_zero.mpr (not_not.mpr hzero))]
      simp
    · rw [if_pos hzero]
      simp

/-- Which state the buyer is in makes no difference. -/
theorem covers_taxParams (interState : Bool) :
    (order.taxParams interState).Covers ↔ (order.taxParams false).Covers := by
  have hleaves : ∀ a b, (order.taxParams a).Leaves → (order.taxParams b).Leaves :=
    fun a b h => ⟨h.nonneg, h.sum_le⟩
  exact or_congr Iff.rfl (and_congr Iff.rfl ⟨hleaves _ _, hleaves _ _⟩)

/-- A bill of an order whose figures are computed from its lines foots if and only if its tax is
covered. A line is negative only where a combo's options take off more than it costs; then not more
than two thousand lines are looked at. -/
theorem bill_foots (h : order.Figured)
    (hlines : (∃ i ∈ order.items, i.lineTotal.scaled < 0) → order.items.length ≤ 2000)
    (outlet : OutletForPrint) (buyerGstin : Option String) (reprint : Bool) :
    (billFor order outlet buyerGstin reprint).Foots ↔ order.Covered := by
  have hcomputed := h.computed
  have hwhole := hcomputed.whole hlines (interState outlet buyerGstin)
  have hiff := TaxLineParams.sum_eq_tax_iff hwhole fun htax => by
    obtain ⟨i, hi, hrate⟩ := hcomputed.taxed htax
    exact ⟨rates_ne_nil (List.mem_map.mpr ⟨i, hi, rfl⟩) hrate, hcomputed.consistent.tax htax⟩
  rw [hwhole.val_tax, covers_taxParams] at hiff
  have hnonneg := (sum_billTaxLines hwhole).2
  obtain ⟨hdiscounts, hcharge, hround⟩ := hcomputed.printed outlet buyerGstin reprint
  have hsubtotal : (toPaise (billFor order outlet buyerGstin reprint).subtotal).val =
    order.figures.subtotal.scaled := val_toPaise_toNumber _
  have htotal : (toPaise (billFor order outlet buyerGstin reprint).total).val =
    order.figures.total.scaled := val_toPaise_toNumber _
  have htaxTotal : (toPaise (billFor order outlet buyerGstin reprint).taxTotal).val =
    order.figures.taxAmount.scaled := val_toPaise_toNumber _
  have hsum := hcomputed.consistent.sum
  constructor
  · intro hfoots
    have htax := hfoots.tax.trans htaxTotal
    refine ⟨?_, hiff.mp htax⟩
    by_contra hneg
    -- a discount that is not positive is not printed
    obtain ⟨hd, ht, hc, hr⟩ := hcomputed.consistent.below (not_le.mp hneg)
    have hfoot := hfoots.total
    rw [hsubtotal, htotal, hdiscounts, hcharge, hround, htax] at hfoot
    have hfoot' : order.figures.subtotal.scaled - max 0 order.figures.discountAmount.scaled +
        order.figures.serviceChargeAmount.scaled + order.figures.taxAmount.scaled +
        order.figures.roundOff.scaled = order.figures.total.scaled := by exact_mod_cast hfoot
    omega
  · rintro ⟨hpos, hcovers⟩
    have htax := hiff.mpr hcovers
    refine ⟨hnonneg, htax.trans htaxTotal.symm, ?_⟩
    have hmax := max_eq_right (hcomputed.consistent.discount hpos).1
    rw [hsubtotal, htotal, hdiscounts, hcharge, hround, hmax]
    refine (congrArg (fun x => _ - _ + _ + x + _) htax).trans ?_
    exact_mod_cast hsum

end Bill

/-- A line of a bill. -/
def dish (stamp : ℕ) (price : Amount) (taxRate : Rate) : Billing.OrderItem :=
  ⟨⟨0, stamp⟩, ⟨0, 0⟩, "dish", .one, price, price, taxRate, none, none, false, none, none,
    ⟨"Dish", none, none, none, none, .pending, none, none, []⟩⟩

/-- A bill of these lines, with a discount. -/
def billOf (items : List Billing.OrderItem) (discount : Binary64) : OrderForPrint where
  toOrder := { Billing.newOrder ⟨0, 0⟩ "o" .takeaway none none none with
    figures := ((Billing.figuresOf (computeBill (items.map (·.moneyLine)) ⟨discount, none, false⟩)
      none).toOption).getD .zero }
  items := items
  payments := []
  tableName := none

/-- Four dishes at four rates, and a discount that leaves nineteen paise of 188 rupees. -/
def fourRates : OrderForPrint :=
  billOf [dish 1 .hundred ⟨500, by decide⟩, dish 2 ⟨4200, by decide⟩ ⟨1200, by decide⟩,
    dish 3 ⟨2800, by decide⟩ ⟨1800, by decide⟩, dish 4 ⟨1800, by decide⟩ ⟨2800, by decide⟩]
    (.ofRat (18781 / 100))

/-- The tax lines of a bill may add up to more than its tax. -/
theorem not_bill_foots : ¬∀ (order : OrderForPrint), order.Figured →
    ∀ outlet buyerGstin reprint, (billFor order outlet buyerGstin reprint).Foots := by
  intro h
  have hfoots := (h fourRates ⟨Billing.defaultBillingRules, .ofRat (18781 / 100), true,
    by decide +kernel⟩ ⟨"Outlet", none, none, none⟩ none false).tax
  revert hfoots
  decide +kernel

/-- Dishes at two rates, one without tax, and a discount. -/
def threeDishes : OrderForPrint :=
  billOf [dish 1 ⟨64000, by decide⟩ ⟨500, by decide⟩, dish 2 ⟨25000, by decide⟩ ⟨1800, by decide⟩,
    dish 3 ⟨9999, by decide⟩ 0] 100

theorem bill_foots_threeDishes :
    let b := billFor threeDishes ⟨"Outlet", none, none, none⟩ none false
    b.taxLines.map (·.label) = [.cgst, .sgst, .cgst, .sgst] ∧ b.Foots :=
  ⟨by decide +kernel, (bill_foots ⟨Billing.defaultBillingRules, 100, true, by decide +kernel⟩
    (by decide +kernel) _ _ _).mpr
      ⟨by decide +kernel, .inr ⟨by decide +kernel, by decide +kernel, by decide +kernel⟩⟩⟩

end StelloKitchens.Printing
