import StelloKitchens.Inventory.Effects
import StelloKitchens.Lib.DecimalError
import StelloKitchens.Lib.RoundingOrder

/-!
# The average cost of a material

A receipt blends the value on hand and the value received. Stock may be negative, for sales and waste
are not refused; where a receipt takes it from below nothing to above, the blend divides by less than
what was received, and is no average.

## Main definitions

* `Receipt.Averaged` — the cost lies between the old one and that of the receipt.
* `Receipt.Weighable`, `Batch.Weighable` — there is no negative stock to blend with.

## Main results

* `Receipt.averaged` — a receipt that can be weighed is averaged.
* `average_cost` — receipts and costs over all runs.
-/

namespace StelloKitchens.Inventory

open Checked

/-! ### One receipt -/

/-- The cost per unit after the receipt lies between the old cost and the unit cost of the receipt. -/
structure Receipt.Averaged (r : Receipt) : Prop where
  lower : min (r.before.costPerUnit.scaled / 10 ^ 4 : ℚ) r.unitCost.shortest ≤
    r.after.costPerUnit.scaled / 10 ^ 4
  upper : (r.after.costPerUnit.scaled / 10 ^ 4 : ℚ) ≤
    max (r.before.costPerUnit.scaled / 10 ^ 4 : ℚ) r.unitCost.shortest

instance (r : Receipt) : Decidable r.Averaged :=
  decidable_of_iff (min (r.before.costPerUnit.scaled / 10 ^ 4 : ℚ) r.unitCost.shortest ≤
      r.after.costPerUnit.scaled / 10 ^ 4 ∧ (r.after.costPerUnit.scaled / 10 ^ 4 : ℚ) ≤
      max (r.before.costPerUnit.scaled / 10 ^ 4 : ℚ) r.unitCost.shortest)
    ⟨fun h => ⟨h.1, h.2⟩, fun h => ⟨h.lower, h.upper⟩⟩

/-- A cost with at most four decimals, as its columns hold it. -/
def FourDecimals (cost : Binary64) : Prop :=
  (Decimal.ofNumber cost : Option (Decimal 12 4)).any (·.toNumber = cost) = true

instance (cost : Binary64) : Decidable (FourDecimals cost) := inferInstanceAs (Decidable (_ = true))

/-- The stock before the receipt is not negative, or there is still none after it; and the cost of
the receipt has at most four decimals. -/
structure Receipt.Weighable (r : Receipt) : Prop where
  stock : 0 ≤ r.before.stockQty.scaled ∨ ¬0 < D r.before.stockQty + r.quantity
  unitCost : FourDecimals r.unitCost

instance (r : Receipt) : Decidable r.Weighable :=
  decidable_of_iff ((0 ≤ r.before.stockQty.scaled ∨ ¬0 < D r.before.stockQty + r.quantity) ∧
    FourDecimals r.unitCost) ⟨fun h => ⟨h.1, h.2⟩, fun h => ⟨h.stock, h.unitCost⟩⟩

/-- The stock that the batch started from is not negative, or there is still none after it. -/
def Batch.Weighable (b : Batch) : Prop := 0 ≤ b.stockQty.scaled ∨ ¬0 < b.newQty

instance (b : Batch) : Decidable b.Weighable := inferInstanceAs (Decidable (_ ∨ _))

/-- A weighted average lies between the two. -/
theorem weighted_average_bounds {a b x y : ℚ} (ha : 0 ≤ a) (hb : 0 ≤ b) (hsum : 0 < a + b) :
    min x y ≤ (a * x + b * y) / (a + b) ∧ (a * x + b * y) / (a + b) ≤ max x y := by
  constructor
  · rw [le_div_iff₀ hsum]
    have h₁ := mul_le_mul_of_nonneg_left (min_le_left x y) ha
    have h₂ := mul_le_mul_of_nonneg_left (min_le_right x y) hb
    linarith
  · rw [div_le_iff₀ hsum]
    have h₁ := mul_le_mul_of_nonneg_left (le_max_left x y) ha
    have h₂ := mul_le_mul_of_nonneg_left (le_max_right x y) hb
    linarith

/-- A sum that is positive when it is rounded is positive. -/
theorem pos_of_round_pos {q : ℚ} (h : 0 < Binary64.round q) : 0 < q := by
  by_contra hq
  have hle := Binary64.round_nonneg (neg_nonneg.mpr (not_lt.mp hq))
  rw [Binary64.round_neg] at hle
  linarith

theorem four_decimals {cost : Binary64} (h : FourDecimals cost) :
    ∃ c : Decimal 12 4, Decimal.ofNumber cost = some c ∧ c.toNumber = cost ∧
      cost.shortest = c.scaled / 10 ^ 4 := by
  obtain ⟨c, hc, hcost⟩ := (Option.any_eq_true _ _).mp h
  have hnumber : c.toNumber = cost := of_decide_eq_true hcost
  refine ⟨c, hc, hnumber, ?_⟩
  rw [← hnumber]
  exact Binary64.shortest_ofRat (by norm_num) (c.abs_scaled_le (by norm_num))

/-- What is blended with stock that is not negative is stored between the two costs. -/
theorem blend_bounds {stockQty : Decimal 12 3} {cost unitCost blended : Decimal 12 4}
    {quantity : Binary64} (hstock : 0 ≤ stockQty.scaled) (hquantity : 0 ≤ quantity)
    (hpos : 0 < D stockQty + quantity)
    (h : Decimal.ofNumber (blend (D stockQty) (D cost) quantity (D unitCost)) = some blended) :
    min cost.scaled unitCost.scaled ≤ blended.scaled ∧
      blended.scaled ≤ max cost.scaled unitCost.scaled := by
  rw [blend, if_pos hpos] at h
  have ha := Binary64.nonneg_iff.mp (zero_le_toNumber hstock)
  have hb := Binary64.nonneg_iff.mp hquantity
  have hsum : 0 < (D stockQty).val + quantity.val := by
    refine pos_of_round_pos ?_
    rw [Binary64.lt_def, Binary64.val_zero] at hpos
    exact hpos
  have hx : |(D cost).val * 10 ^ 4 - cost.scaled| ≤ 1 / 2 ^ 13 := cost.abs_toNumber_sub_le
  have hy : |(D unitCost).val * 10 ^ 4 - unitCost.scaled| ≤ 1 / 2 ^ 13 :=
    unitCost.abs_toNumber_sub_le
  have hsize : ∀ c : Decimal 12 4, |(D c).val| ≤ (2 ^ 40 + 1) / 10 ^ 4 := by
    intro c
    have hc : |(c.scaled : ℚ)| ≤ 2 ^ 40 := by exact_mod_cast c.abs_scaled_lt.le
    have htri := abs_sub_abs_le_abs_sub ((D c).val * 10 ^ 4) (c.scaled : ℚ)
    have hnear : |(D c).val * 10 ^ 4 - c.scaled| ≤ 1 / 2 ^ 13 := Decimal.abs_toNumber_sub_le c
    rw [abs_mul, abs_of_pos (by norm_num : (0 : ℚ) < 10 ^ 4)] at htri
    rw [le_div_iff₀ (by norm_num)]
    have hsum := (sub_le_iff_le_add.mp htri).trans (add_le_add hnear hc)
    exact hsum.trans (by norm_num)
  have herror := Binary64.abs_weighted_average_sub_le ha hb hsum (hsize cost) (hsize unitCost)
  obtain ⟨hmin, hmax⟩ := weighted_average_bounds (x := (D cost).val) (y := (D unitCost).val) ha hb hsum
  obtain ⟨he₁, he₂⟩ := abs_le.mp herror
  obtain ⟨hx₁, hx₂⟩ := abs_le.mp hx
  obtain ⟨hy₁, hy₂⟩ := abs_le.mp hy
  have hlo : |min cost.scaled unitCost.scaled| ≤ 2 ^ 42 := by
    rcases min_choice cost.scaled unitCost.scaled with h | h <;> rw [h]
    · exact cost.abs_scaled_lt.le.trans (by norm_num)
    · exact unitCost.abs_scaled_lt.le.trans (by norm_num)
  have hhi : |max cost.scaled unitCost.scaled| ≤ 2 ^ 42 := by
    rcases max_choice cost.scaled unitCost.scaled with h | h <;> rw [h]
    · exact cost.abs_scaled_lt.le.trans (by norm_num)
    · exact unitCost.abs_scaled_lt.le.trans (by norm_num)
  refine Decimal.scaled_bounds h hlo hhi ?_ ?_
  · have hcast : ((min cost.scaled unitCost.scaled : ℤ) : ℚ) - 1 / 2 ^ 13 ≤
        min (D cost).val (D unitCost).val * 10 ^ 4 := by
      push_cast
      rcases min_choice (D cost).val (D unitCost).val with h | h <;> rw [h]
      · have := min_le_left (cost.scaled : ℚ) unitCost.scaled
        linarith
      · have := min_le_right (cost.scaled : ℚ) unitCost.scaled
        linarith
    linarith
  · have hcast : max (D cost).val (D unitCost).val * 10 ^ 4 ≤
        ((max cost.scaled unitCost.scaled : ℤ) : ℚ) + 1 / 2 ^ 13 := by
      push_cast
      rcases max_choice (D cost).val (D unitCost).val with h | h <;> rw [h]
      · have := le_max_left (cost.scaled : ℚ) unitCost.scaled
        linarith
      · have := le_max_right (cost.scaled : ℚ) unitCost.scaled
        linarith
    linarith

/-- A receipt that can be weighed is averaged. -/
theorem Receipt.averaged {r : Receipt}
    (hreceive : r.before.receive r.quantity r.unitCost = some r.after) (hquantity : 0 ≤ r.quantity)
    (h : r.Weighable) : r.Averaged := by
  obtain ⟨stockQty, -, hrest⟩ := Option.bind_eq_some_iff.mp hreceive
  obtain ⟨costPerUnit, hblend, hafter⟩ := Option.bind_eq_some_iff.mp hrest
  have hcost : r.after.costPerUnit = costPerUnit := by
    rw [← Option.some_inj.mp hafter]
  obtain ⟨c, hc, hnumber, hshortest⟩ := four_decimals h.unitCost
  have hbounds : min r.before.costPerUnit.scaled c.scaled ≤ r.after.costPerUnit.scaled ∧
      r.after.costPerUnit.scaled ≤ max r.before.costPerUnit.scaled c.scaled := by
    rw [hcost]
    by_cases hpos : 0 < D r.before.stockQty + r.quantity
    · rw [← hnumber] at hblend
      exact blend_bounds (h.stock.resolve_right (not_not_intro hpos)) hquantity hpos hblend
    · rw [blend, if_neg hpos, hc] at hblend
      rw [Option.some_inj.mp hblend]
      exact ⟨min_le_right _ _, le_max_right _ _⟩
  have hscale : (0 : ℚ) < 10 ^ 4 := by norm_num
  constructor
  · rw [hshortest, min_div_div_right hscale.le, div_le_div_iff_of_pos_right hscale]
    exact_mod_cast hbounds.1
  · rw [hshortest, max_div_div_right hscale.le, div_le_div_iff_of_pos_right hscale]
    exact_mod_cast hbounds.2

/-! ### What has been ordered and received -/

/-- The price and the factor of the line are not negative. -/
structure PurchaseOrderLine.Priced (l : PurchaseOrderLine) : Prop where
  rate : 0 ≤ l.rate.scaled
  factor : 0 ≤ l.unitFactor.scaled

/-- A batch that is about to be stored takes something in, for something. -/
structure Batch.Sensible (b : Batch) : Prop where
  quantity : 0 < b.quantity
  needs : ∀ n ∈ b.needs, 0 ≤ n.need

/-- Orders have prices, and receipts were of something at some price. -/
structure Logged (s : InventoryDb) : Prop where
  orders : ∀ po ∈ s.purchaseOrders, ∀ l ∈ po.lines, l.Priced
  lines : ∀ u ∈ s.unfinished, ∀ l ∈ u.lines, l.Priced
  batches : ∀ b, .batch b ∈ s.unfinished → b.Sensible
  receipts : ∀ r ∈ s.receipts,
    r.before.receive r.quantity r.unitCost = some r.after ∧ 0 ≤ r.quantity ∧ 0 ≤ r.unitCost

variable {s t : InventoryDb}

theorem nonneg_of_unitFactor {u v : MaterialUnit} {factor : Binary64}
    (h : unitFactor u v = some factor) : 0 ≤ factor := by
  have hpos : ∀ x : Binary64, x ∈ [1000, .ofRat (1 / 1000), 1] → 0 ≤ x := by
    decide +kernel
  refine hpos factor ?_
  unfold unitFactor at h
  split at h
  all_goals try split at h
  all_goals simp_all

theorem PurchaseOrderLine.Resolved.priced {l : PurchaseOrderLine} {m : RawMaterial}
    (h : l.Resolved m) : l.Priced := by
  refine ⟨h.rate, ?_⟩
  obtain ⟨factor, hfactor, hstored⟩ := Option.bind_eq_some_iff.mp h.factor
  exact Decimal.scaled_nonneg_of_ofNumber
    (Binary64.nonneg_iff.mp (nonneg_of_unitFactor hfactor)) hstored

theorem PurchaseOrderLine.Same.priced {l l' : PurchaseOrderLine} (h : l'.Same l)
    (hl : l'.Priced) : l.Priced := by
  have hsame : ({ l' with receivedQty := 0 } : PurchaseOrderLine) = { l with receivedQty := 0 } := h
  have hrate : l'.rate = l.rate := (congrArg PurchaseOrderLine.rate hsame :)
  have hfactor : l'.unitFactor = l.unitFactor := (congrArg PurchaseOrderLine.unitFactor hsame :)
  exact ⟨hrate ▸ hl.rate, hfactor ▸ hl.factor⟩

theorem Logged.listed {l : PurchaseOrderLine} (h : Logged s) (hl : s.Listed l) : l.Priced := by
  obtain ⟨po, hpo, -, l', hl', hsame⟩ := hl
  exact hsame.priced (h.orders po hpo l' hl')

theorem mem_numbered {lines : List PurchaseOrderLine} {l : PurchaseOrderLine}
    (h : l ∈ s.numbered lines) : ∃ l' ∈ lines, ∃ id, l = { l' with id := id } := by
  obtain ⟨i, hi, rfl⟩ := List.mem_mapIdx.mp h
  exact ⟨lines[i], List.getElem_mem hi, _, rfl⟩

theorem priced_numbered {lines : List PurchaseOrderLine} (h : ∀ l ∈ lines, l.Priced) :
    ∀ l ∈ s.numbered lines, l.Priced := by
  intro l hl
  obtain ⟨l', hl', id, rfl⟩ := mem_numbered hl
  exact ⟨(h l' hl').rate, (h l' hl').factor⟩

theorem zero_le_round3 {x : Binary64} (h : 0 ≤ x) : 0 ≤ round3 x :=
  Binary64.zero_le_div (Binary64.zero_le_nearestInt (Binary64.zero_le_mul h (by decide +kernel)))
    (by decide +kernel)

theorem zero_le_round4 {x : Binary64} (h : 0 ≤ x) : 0 ≤ round4 x :=
  Binary64.zero_le_div (Binary64.zero_le_nearestInt (Binary64.zero_le_mul h (by decide +kernel)))
    (by decide +kernel)

/-- What is received of a priced line is not negative, and costs nothing negative. -/
theorem ReceivedLine.nonneg {r : ReceivedLine} (h : r.line.Priced) (hquantity : 0 < r.quantity)
    (hrate : 0 ≤ r.rate ∨ r.rate = D r.line.rate) : 0 ≤ r.stockQty ∧ 0 ≤ r.unitCost := by
  have hfactor : 0 ≤ r.factor := by
    unfold ReceivedLine.factor
    split
    · decide +kernel
    · exact zero_le_toNumber h.factor
  have hrate : 0 ≤ r.rate := by
    rcases hrate with hrate | hrate
    · exact hrate
    · rw [hrate]
      exact zero_le_toNumber h.rate
  exact ⟨zero_le_round3 (Binary64.zero_le_mul hquantity.le hfactor),
    zero_le_round4 (Binary64.zero_le_div hrate hfactor)⟩

theorem Logged.received {r : Receipt} (h : Logged s) (hr : Received s r t) (hquantity : 0 ≤ r.quantity)
    (hcost : 0 ≤ r.unitCost) : Logged t := by
  obtain ⟨-, hreceive, movement, rfl⟩ := hr
  refine ⟨h.orders, h.lines, h.batches, fun r' hr' => ?_⟩
  rcases List.mem_append.mp hr' with hr' | hr'
  · exact h.receipts r' hr'
  · obtain rfl := List.mem_singleton.mp hr'
    exact ⟨hreceive, hquantity, hcost⟩

/-- Orders keep their prices. -/
theorem Effect.logged (heffect : Effect s t) (h : Logged s) : Logged t := by
  cases heffect with
  | create m later hid hcost hlater =>
    refine ⟨h.orders, fun u hu => ?_, fun b hb => ?_, h.receipts⟩
    · rcases List.mem_append.mp hu with hu | hu
      · exact h.lines u hu
      · obtain ⟨q, c, rfl⟩ := hlater u hu
        exact fun l hl => absurd hl List.not_mem_nil
    · rcases List.mem_append.mp hb with hb | hb
      · exact h.batches b hb
      · obtain ⟨q, c, hopening⟩ := hlater _ hb
        cases hopening
  | receipt r hr hquantity hcost => exact h.received hr hquantity.le hcost
  | begin u hu =>
    refine ⟨h.orders, fun u' hu' => ?_, fun b hb => ?_, h.receipts⟩
    · rcases List.mem_append.mp hu' with hu' | hu'
      · exact h.lines u' hu'
      · obtain rfl := List.mem_singleton.mp hu'
        intro l hl
        cases u' with
        | opening | batch => exact absurd hl List.not_mem_nil
        | order lines | orderLines id lines =>
          obtain ⟨m, -, hresolved⟩ := hu l hl
          exact hresolved.priced
    · rcases List.mem_append.mp hb with hb | hb
      · exact h.batches b hb
      · obtain rfl := List.mem_singleton.mp hb
        exact ⟨hu.1, fun n hn => (hu.2.2 n hn).1⟩
  | order lines hlines poNumber =>
    refine ⟨fun po hpo => ?_, h.lines, h.batches, h.receipts⟩
    rcases KeyedTable.mem_put.mp hpo with rfl | ⟨hpo, -⟩
    · exact priced_numbered (h.lines _ hlines)
    · exact h.orders po hpo
  | orderLines po hpo hlive lines hlines =>
    refine ⟨fun po' hpo' => ?_, h.lines, h.batches, h.receipts⟩
    rcases KeyedTable.mem_put.mp hpo' with rfl | ⟨hpo', -⟩
    · exact priced_numbered (h.lines _ hlines)
    · exact h.orders po' hpo'
  | status id status =>
    refine ⟨fun po hpo => ?_, h.lines, h.batches, h.receipts⟩
    obtain ⟨po₀, hpo₀, rfl⟩ := List.mem_map.mp (KeyedTable.mem_def.mp hpo)
    split
    · exact h.orders po₀ hpo₀
    · exact h.orders po₀ hpo₀
  | deliver r receipt hr hline hid hquantity hrate hstock hcost poId receivedQty goods hgoods =>
    have hnonneg := ReceivedLine.nonneg (h.listed hline) hquantity hrate
    have hreceived := h.received hr (hstock ▸ hnonneg.1) (hcost ▸ hnonneg.2)
    refine ⟨fun po hpo => ?_, hreceived.lines, hreceived.batches, hreceived.receipts⟩
    obtain ⟨po₀, hpo₀, rfl⟩ := List.mem_map.mp (KeyedTable.mem_def.mp hpo)
    split
    · intro l hl
      obtain ⟨l₀, hl₀, rfl⟩ := List.mem_map.mp hl
      have hpriced := hreceived.orders po₀ hpo₀ l₀ hl₀
      split
      · exact ⟨hpriced.rate, hpriced.factor⟩
      · exact hpriced
    · exact hreceived.orders po₀ hpo₀
  | drop i =>
    exact ⟨h.orders, fun u hu => h.lines u (List.mem_of_mem_eraseIdx hu),
      fun b hb => h.batches b (List.mem_of_mem_eraseIdx hb), h.receipts⟩
  | _ => exact ⟨h.orders, h.lines, h.batches, h.receipts⟩

/-! ### Costs -/

/-- No cost is negative, of a material or of what a batch has read. -/
structure Costed (s : InventoryDb) : Prop where
  materials : ∀ m ∈ s.materials, 0 ≤ m.costPerUnit.scaled
  batches : ∀ b, .batch b ∈ s.unfinished →
    0 ≤ b.costPerUnit.scaled ∧ ∀ n ∈ b.needs, 0 ≤ n.costPerUnit.scaled

/-- All receipts and batches could be weighed. -/
structure Weighed (s : InventoryDb) : Prop where
  receipts : ∀ r ∈ s.receipts, r.Weighable
  batches : ∀ b ∈ s.batches, b.Weighable

theorem Costed.set {m : RawMaterial} (h : Costed s) (hm : 0 ≤ m.costPerUnit.scaled) :
    Costed (s.setMaterial m) := by
  refine ⟨fun m' hm' => ?_, h.batches⟩
  rcases KeyedTable.mem_put.mp hm' with rfl | ⟨hm', -⟩
  · exact hm
  · exact h.materials m' hm'

/-- An average of costs that are not negative is not negative. -/
theorem Receipt.Averaged.nonneg {r : Receipt} (h : r.Averaged)
    (hbefore : 0 ≤ r.before.costPerUnit.scaled) (hcost : 0 ≤ r.unitCost) :
    0 ≤ r.after.costPerUnit.scaled := by
  have hscaled : (0 : ℚ) ≤ r.before.costPerUnit.scaled := by exact_mod_cast hbefore
  have hmin : (0 : ℚ) ≤ min (r.before.costPerUnit.scaled / 10 ^ 4 : ℚ) r.unitCost.shortest :=
    le_min (by positivity) (Binary64.shortest_nonneg (Binary64.nonneg_iff.mp hcost))
  have hafter := hmin.trans h.lower
  rw [le_div_iff₀ (by norm_num), zero_mul] at hafter
  exact_mod_cast hafter

theorem Costed.received {r : Receipt} (h : Costed s) (hr : Received s r t) (hlogged : Logged t)
    (hweighed : Weighed t) : Costed t := by
  have hmem : r ∈ t.receipts := by
    obtain ⟨-, -, movement, rfl⟩ := hr
    exact List.mem_append_right _ (List.mem_singleton_self r)
  obtain ⟨hreceive, hquantity, hcost⟩ := hlogged.receipts r hmem
  have haverage := Receipt.averaged hreceive hquantity (hweighed.receipts r hmem)
  obtain ⟨hbefore, -, movement, rfl⟩ := hr
  have hset := h.set (haverage.nonneg (h.materials _ hbefore) hcost)
  exact ⟨hset.materials, hset.batches⟩

theorem Batch.batchCost_nonneg {b : Batch} (h : b.Sensible)
    (hcosts : ∀ n ∈ b.needs, 0 ≤ n.costPerUnit.scaled) : 0 ≤ b.batchCost := by
  refine List.foldlRecOn b.needs (motive := fun x => 0 ≤ x) _ le_rfl fun x hx n hn => ?_
  exact Binary64.zero_le_add hx
    (Binary64.zero_le_mul (h.needs n hn) (zero_le_toNumber (hcosts n hn)))

/-- A batch that can be weighed has no negative cost. -/
theorem Batch.blendedCost_nonneg {b : Batch} (h : b.Sensible) (hweighable : b.Weighable)
    (hcost : 0 ≤ b.costPerUnit.scaled) (hcosts : ∀ n ∈ b.needs, 0 ≤ n.costPerUnit.scaled) :
    0 ≤ b.blendedCost := by
  unfold Batch.blendedCost
  split
  · rename_i hpos
    have hstock := hweighable.resolve_right (not_not_intro hpos)
    exact Binary64.zero_le_div (Binary64.zero_le_add
      (Binary64.zero_le_mul (zero_le_toNumber hstock) (zero_le_toNumber hcost))
      (Batch.batchCost_nonneg h hcosts)) hpos.le
  · exact zero_le_toNumber hcost

theorem Received.batches {r : Receipt} (h : Received s r t) : t.batches = s.batches := by
  obtain ⟨-, -, _, rfl⟩ := h
  rfl

theorem Received.mem_receipts {r r' : Receipt} (h : Received s r t) (hr' : r' ∈ s.receipts) :
    r' ∈ t.receipts := by
  obtain ⟨-, -, _, rfl⟩ := h
  exact List.mem_append_left _ hr'

/-- What could be weighed so far was so before. -/
theorem Effect.weighed (heffect : Effect s t) (h : Weighed t) : Weighed s := by
  cases heffect with
  | receipt r hr =>
    exact ⟨fun r' hr' => h.receipts r' (hr.mem_receipts hr'), hr.batches ▸ h.batches⟩
  | deliver r receipt hr =>
    exact ⟨fun r' hr' => h.receipts r' (hr.mem_receipts hr'), hr.batches ▸ h.batches⟩
  | batch b => exact ⟨h.receipts, fun b' hb' => h.batches b' (List.mem_append_left _ hb')⟩
  | _ => exact ⟨h.receipts, h.batches⟩

/-- While everything can be weighed, no cost becomes negative. -/
theorem Effect.costed (heffect : Effect s t) (hlogged : Logged s) (hweighed : Weighed t)
    (h : Costed s) : Costed t := by
  have hloggedt := heffect.logged hlogged
  cases heffect with
  | create m later hid hcost hlater =>
    refine ⟨(h.set hcost).materials, fun b hb => ?_⟩
    rcases List.mem_append.mp hb with hb | hb
    · exact h.batches b hb
    · obtain ⟨q, c, hopening⟩ := hlater _ hb
      cases hopening
  | edit m hm name unit =>
    exact ⟨(h.set (m := { m with
      name := name
      unit := unit }) (h.materials m hm)).materials, h.batches⟩
  | delete m hm =>
    exact ⟨(h.set (m := { m with deleted := true }) (h.materials m hm)).materials, h.batches⟩
  | receipt r hr hquantity hcost => exact h.received hr hloggedt hweighed
  | move m hm stockQty movement =>
    exact ⟨(h.set (m := { m with stockQty := stockQty }) (h.materials m hm)).materials, h.batches⟩
  | begin u hu =>
    refine ⟨h.materials, fun b hb => ?_⟩
    rcases List.mem_append.mp hb with hb | hb
    · exact h.batches b hb
    · obtain rfl := List.mem_singleton.mp hb
      obtain ⟨-, ⟨m, hm, -, -, hcost⟩, hneeds⟩ := hu
      refine ⟨hcost ▸ h.materials m hm, fun n hn => ?_⟩
      obtain ⟨-, m', hm', hcost'⟩ := hneeds n hn
      exact hcost' ▸ h.materials m' hm'
  | batch b hb m hm hid stockQty costPerUnit hcost movement =>
    have hnonneg := Batch.blendedCost_nonneg (hlogged.batches b hb)
      (hweighed.batches b (List.mem_append_right _ (List.mem_singleton_self b)))
      (h.batches b hb).1 (h.batches b hb).2
    exact ⟨(h.set (m := { m with
        stockQty := stockQty
        costPerUnit := costPerUnit })
      (Decimal.scaled_nonneg_of_ofNumber (Binary64.nonneg_iff.mp hnonneg) hcost)).materials,
      h.batches⟩
  | deliver r receipt hr hline hid hquantity hrate hstock hcost poId receivedQty goods hgoods =>
    have hnonneg := ReceivedLine.nonneg (hlogged.listed hline) hquantity hrate
    have hreceived := hlogged.received hr (hstock ▸ hnonneg.1) (hcost ▸ hnonneg.2)
    have hcosted := h.received hr hreceived ⟨hweighed.receipts, hweighed.batches⟩
    exact ⟨hcosted.materials, hcosted.batches⟩
  | drop i => exact ⟨h.materials, fun b hb => h.batches b (List.mem_of_mem_eraseIdx hb)⟩
  | _ => exact ⟨h.materials, h.batches⟩

/-- Whatever is bought, sold, wasted, made and counted, in whatever order: while no receipt and no
batch is blended with negative stock, every receipt leaves a cost between the old one and its own,
and no cost is ever negative. -/
theorem average_cost (s : InventoryDb) (h : inventory.Reachable s)
    (hreceipts : ∀ r ∈ s.receipts, r.Weighable) (hbatches : ∀ b ∈ s.batches, b.Weighable) :
    (∀ r ∈ s.receipts, r.Averaged) ∧ ∀ m ∈ s.materials, 0 ≤ m.costPerUnit.scaled := by
  have hinvariant : Logged s ∧ (Weighed s → Costed s) := by
    refine inventory_invariant (I := fun s => Logged s ∧ (Weighed s → Costed s))
      ⟨⟨fun po hpo => ?_, fun u hu => ?_, fun b hb => ?_, fun r hr => ?_⟩,
        fun _ => ⟨fun m hm => ?_, fun b hb => ?_⟩⟩ (fun s t heffect hs => ?_) h
    · exact absurd hpo (KeyedTable.notMem_empty po)
    · exact absurd hu List.not_mem_nil
    · exact absurd hb List.not_mem_nil
    · exact absurd hr List.not_mem_nil
    · exact absurd hm (KeyedTable.notMem_empty m)
    · exact absurd hb List.not_mem_nil
    · exact ⟨heffect.logged hs.1, fun hweighed =>
        heffect.costed hs.1 hweighed (hs.2 (heffect.weighed hweighed))⟩
  obtain ⟨hlogged, hcosted⟩ := hinvariant
  refine ⟨fun r hr => ?_, (hcosted ⟨hreceipts, hbatches⟩).materials⟩
  obtain ⟨hreceive, hquantity, -⟩ := hlogged.receipts r hr
  exact Receipt.averaged hreceive hquantity (hreceipts r hr)

/-! ### Flour -/

theorem ten_pos : (0 : Binary64) < 10 := by decide +kernel

theorem ten_nonneg : (0 : Binary64) ≤ 10 := by decide +kernel

theorem hundred_nonneg : (0 : Binary64) ≤ 100 := by decide +kernel

/-- Ten kilogrammes at a hundred. -/
def flour : CreateMaterialInput := ⟨"Flour", .KG, 10, 100, ten_nonneg, hundred_nonneg⟩

/-- Ten kilogrammes more, at ten. -/
def cheapFlour : ReceiveStockInput := ⟨10, 10, ten_pos, ten_nonneg⟩

/-- Four kilogrammes are sold before the cheap flour comes, and thirty before it comes again. -/
def flourRun : List InventoryAction :=
  [.createMaterial flour, .punchItems [(0, 4)], .receiveStock 0 cheapFlour, .punchItems [(0, 30)],
    .receiveStock 0 cheapFlour]

theorem average_cost_flourRun :
    (inventory.run .empty flourRun).receipts.map (·.after.costPerUnit.scaled) = [437500, 100000] ∧
      (∀ r ∈ (inventory.run .empty flourRun).receipts, r.Averaged) ∧
      ∀ m ∈ (inventory.run .empty flourRun).materials, 0 ≤ m.costPerUnit.scaled :=
  ⟨by decide +kernel, average_cost _ (Machine.reachable_run flourRun (.init rfl))
    (by decide +kernel) (by decide +kernel)⟩

/-- Twelve of the ten kilogrammes are sold before the cheap flour comes. -/
def oversoldRun : List InventoryAction :=
  [.createMaterial flour, .punchItems [(0, 12)], .receiveStock 0 cheapFlour]

/-- The cost becomes negative. -/
theorem not_average_cost : ¬∀ s : InventoryDb, inventory.Reachable s →
    (∀ r ∈ s.receipts, r.Averaged) ∧ ∀ m ∈ s.materials, 0 ≤ m.costPerUnit.scaled := by
  intro h
  have hcost := (h _ (Machine.reachable_run oversoldRun (.init rfl))).2
  have hnegative : ∃ m ∈ (inventory.run .empty oversoldRun).materials.rows,
      m.costPerUnit.scaled < 0 := by decide +kernel
  obtain ⟨m, hm, hlt⟩ := hnegative
  exact absurd (hcost m hm) (not_le.mpr hlt)

end StelloKitchens.Inventory
