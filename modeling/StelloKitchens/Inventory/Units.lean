import StelloKitchens.Inventory.AverageCost

/-!
# Units of purchase and of stock

A line of a purchase order freezes how many units of stock are in a unit of purchase, and an edit
writes another unit of stock without converting anything. As long as edits leave the unit alone, or
find neither stock nor orders, what is received is what was bought.

## Main definitions

* `unitRatio`, `RawMaterial.amount` — what units measure.
* `Delivery.Converted` — a receipt is in the unit that the material is stocked in.
* `Edit.Faithful` — an edit leaves quantity and value as they are.
* `Edit.Harmless` — an edit that writes no other unit to what is stocked or ordered.

## Main results

* `units_converted` — receipts and edits over all runs.
-/

namespace StelloKitchens.Inventory

open Checked

/-! ### What units measure -/

inductive Measure
  | mass
  | volume
  | count
  deriving DecidableEq

namespace MaterialUnit

def measure : MaterialUnit → Measure
  | .KG | .G => .mass
  | .L | .ML => .volume
  | .PCS => .count

/-- Grammes, millilitres or pieces in a unit. -/
def size : MaterialUnit → ℚ
  | .KG | .L => 1000
  | .G | .ML | .PCS => 1

end MaterialUnit

/-- How many units of the second kind are in one of the first, if they measure the same. -/
def unitRatio (u v : MaterialUnit) : Option ℚ :=
  if u.measure = v.measure then some (u.size / v.size) else none

/-- The quantity on hand, in grammes, millilitres or pieces. -/
def RawMaterial.amount (m : RawMaterial) : ℚ := m.stockQty.scaled / 10 ^ 3 * m.unit.size

/-- What is on hand is worth this. -/
def RawMaterial.value (m : RawMaterial) : ℚ :=
  m.stockQty.scaled / 10 ^ 3 * (m.costPerUnit.scaled / 10 ^ 4)

/-- The edit leaves the quantity and the value on hand as they are. -/
structure Edit.Faithful (e : Edit) : Prop where
  amount : e.after.amount = e.before.amount
  measure : e.before.amount = 0 ∨ e.after.unit.measure = e.before.unit.measure
  value : e.after.value = e.before.value

instance (e : Edit) : Decidable e.Faithful :=
  decidable_of_iff (e.after.amount = e.before.amount ∧
      (e.before.amount = 0 ∨ e.after.unit.measure = e.before.unit.measure) ∧
      e.after.value = e.before.value)
    ⟨fun h => ⟨h.1, h.2.1, h.2.2⟩, fun h => ⟨h.amount, h.measure, h.value⟩⟩

/-- The receipt adds what was received in the unit of the stock, to the thousandth, at its cost by
that unit, to the fourth decimal. -/
def Delivery.Converted (d : Delivery) : Prop :=
  ∃ ratio ∈ unitRatio d.line.unit d.receipt.before.unit,
    |((d.receipt.after.stockQty.scaled - d.receipt.before.stockQty.scaled : ℤ) : ℚ) / 10 ^ 3 -
      d.quantity.val * ratio| ≤ 502 / 10 ^ 6 ∧
    |d.receipt.unitCost.val - d.rate.val / ratio| ≤ 502 / 10 ^ 7

instance (d : Delivery) : Decidable d.Converted :=
  inferInstanceAs (Decidable (∃ ratio ∈ unitRatio d.line.unit d.receipt.before.unit, _))

/-- The edit writes no other unit, or finds no stock and no order. -/
def Edit.Harmless (e : Edit) : Prop :=
  e.after.unit = e.before.unit ∨ e.before.stockQty.scaled = 0 ∧ e.ordered = false

instance (e : Edit) : Decidable e.Harmless := inferInstanceAs (Decidable (_ ∨ _))

/-! ### One receipt -/

/-- The factor of a line is how much of the unit of stock is in a unit of purchase. -/
theorem ratio_of_unitFactor {u v : MaterialUnit} {factor : Binary64} {stored : Decimal 12 6}
    (h : unitFactor u v = some factor) (hstored : Decimal.ofNumber factor = some stored) :
    ∃ ratio ∈ unitRatio u v, 0 < ratio ∧ D stored = Binary64.ofRat ratio ∧ D stored ≠ 0 := by
  have hone : ∀ d : Decimal 12 6, Decimal.ofNumber 1 = some d →
      D d = Binary64.ofRat 1 ∧ D d ≠ 0 := by
    intro d hd
    rw [show (Decimal.ofNumber 1 : Option (Decimal 12 6)) = some ⟨1000000, by norm_num⟩ by
      decide +kernel] at hd
    cases hd
    decide +kernel
  have hmany : ∀ d : Decimal 12 6, Decimal.ofNumber 1000 = some d →
      D d = Binary64.ofRat 1000 ∧ D d ≠ 0 := by
    intro d hd
    rw [show (Decimal.ofNumber 1000 : Option (Decimal 12 6)) = some ⟨1000000000, by norm_num⟩ by
      decide +kernel] at hd
    cases hd
    decide +kernel
  have hfew : ∀ d : Decimal 12 6, Decimal.ofNumber (.ofRat (1 / 1000)) = some d →
      D d = Binary64.ofRat (1 / 1000) ∧ D d ≠ 0 := by
    intro d hd
    rw [show (Decimal.ofNumber (.ofRat (1 / 1000)) : Option (Decimal 12 6)) =
      some ⟨1000, by norm_num⟩ by decide +kernel] at hd
    cases hd
    decide +kernel
  have hself : ∀ w : MaterialUnit, unitRatio w w = some 1 := by
    intro w
    cases w <;> norm_num [unitRatio, MaterialUnit.size]
  unfold unitFactor at h
  split at h
  · cases h
    exact ⟨1000, by norm_num [unitRatio, MaterialUnit.size, MaterialUnit.measure], by norm_num,
      hmany stored hstored⟩
  · cases h
    exact ⟨1 / 1000, by norm_num [unitRatio, MaterialUnit.size, MaterialUnit.measure], by norm_num,
      hfew stored hstored⟩
  · cases h
    exact ⟨1000, by norm_num [unitRatio, MaterialUnit.size, MaterialUnit.measure], by norm_num,
      hmany stored hstored⟩
  · cases h
    exact ⟨1 / 1000, by norm_num [unitRatio, MaterialUnit.size, MaterialUnit.measure], by norm_num,
      hfew stored hstored⟩
  · split at h
    · rename_i heq
      cases h
      subst heq
      exact ⟨1, hself _, by norm_num, hone stored hstored⟩
    · cases h

section Ratio

variable {x : Binary64} {ratio : ℚ} {n : ℕ}

/-- A product with a ratio that was rounded. -/
theorem abs_mul_ratio_sub_le (hratio : 0 < ratio)
    (h : |(x * Binary64.ofRat ratio).val * 10 ^ n| ≤ 2 ^ 41) :
    |(x * Binary64.ofRat ratio).val * 10 ^ n - x.val * ratio * 10 ^ n| ≤ 1 / 2 ^ 10 := by
  have hu : Binary64.unitRoundoff = 1 / 2 ^ 53 := rfl
  have hround := Binary64.abs_round_sub_le ratio
  rw [abs_of_pos hratio] at hround
  have hproduct := Decimal.abs_round_mul_sub_le (s := n) (x.val * Binary64.round ratio)
  have hexact : |x.val * Binary64.round ratio * 10 ^ n - x.val * ratio * 10 ^ n| ≤
      Binary64.unitRoundoff * |x.val * ratio * 10 ^ n| := by
    have hfactor : x.val * Binary64.round ratio * 10 ^ n - x.val * ratio * 10 ^ n =
        x.val * 10 ^ n * (Binary64.round ratio - ratio) := by ring
    rw [hfactor, abs_mul, show x.val * ratio * 10 ^ n = x.val * 10 ^ n * ratio by ring,
      abs_mul (x.val * 10 ^ n) ratio, abs_of_pos hratio, mul_left_comm]
    exact mul_le_mul_of_nonneg_left hround (abs_nonneg _)
  change |Binary64.round (x.val * Binary64.round ratio) * 10 ^ n| ≤ 2 ^ 41 at h
  change |Binary64.round (x.val * Binary64.round ratio) * 10 ^ n - x.val * ratio * 10 ^ n| ≤ _
  set y := Binary64.round (x.val * Binary64.round ratio) * 10 ^ n
  set z := x.val * Binary64.round ratio * 10 ^ n
  set w := x.val * ratio * 10 ^ n
  have hw := abs_sub_abs_le_abs_sub w z
  have hz := abs_sub_abs_le_abs_sub z y
  have htri := abs_sub_le y z w
  rw [hu] at hproduct hexact
  rw [abs_sub_comm w z] at hw
  rw [abs_sub_comm z y] at hz
  linarith

/-- A quotient by a ratio that was rounded. -/
theorem abs_div_ratio_sub_le (hratio : 0 < ratio)
    (h : |(x / Binary64.ofRat ratio).val * 10 ^ n| ≤ 2 ^ 41) :
    |(x / Binary64.ofRat ratio).val * 10 ^ n - x.val / ratio * 10 ^ n| ≤ 1 / 2 ^ 10 := by
  have hu : Binary64.unitRoundoff = 1 / 2 ^ 53 := rfl
  have hround := Binary64.abs_round_sub_le ratio
  rw [abs_of_pos hratio] at hround
  have hpos : 0 < Binary64.round ratio := by
    have h := (abs_le.mp hround).1
    rw [hu] at h
    linarith
  have hquotient := Decimal.abs_round_mul_sub_le (s := n) (x.val / Binary64.round ratio)
  have hexact : |x.val / Binary64.round ratio * 10 ^ n - x.val / ratio * 10 ^ n| ≤
      Binary64.unitRoundoff * |x.val / Binary64.round ratio * 10 ^ n| := by
    have hfactor : x.val / Binary64.round ratio * 10 ^ n - x.val / ratio * 10 ^ n =
        x.val / Binary64.round ratio * 10 ^ n * ((ratio - Binary64.round ratio) / ratio) := by
      field_simp
    rw [hfactor, abs_mul, mul_comm, abs_div, abs_of_pos hratio, abs_sub_comm]
    refine mul_le_mul_of_nonneg_right ?_ (abs_nonneg _)
    rw [div_le_iff₀ hratio]
    exact hround
  change |Binary64.round (x.val / Binary64.round ratio) * 10 ^ n| ≤ 2 ^ 41 at h
  change |Binary64.round (x.val / Binary64.round ratio) * 10 ^ n - x.val / ratio * 10 ^ n| ≤ _
  set y := Binary64.round (x.val / Binary64.round ratio) * 10 ^ n
  set z := x.val / Binary64.round ratio * 10 ^ n
  set w := x.val / ratio * 10 ^ n
  have hz := abs_sub_abs_le_abs_sub z y
  have htri := abs_sub_le y z w
  rw [hu] at hquotient hexact
  rw [abs_sub_comm z y] at hz
  linarith

end Ratio

/-- A number near another that is small is small. -/
theorem abs_le_of_near {x y : ℚ} (hy : |y| ≤ 2 ^ 40) (h : |y - x| ≤ 1 / 2 + 1 / 2 ^ 11) :
    |x| ≤ 2 ^ 41 := by
  have htri := abs_sub_abs_le_abs_sub x y
  rw [abs_sub_comm] at htri
  linarith

/-- Two errors in units of a column, in the unit of its numbers. -/
theorem abs_div_sub_le {x y w c e₁ e₂ : ℚ} (hc : 0 < c) (h₁ : |x - y| ≤ e₁)
    (h₂ : |y - w * c| ≤ e₂) : |x / c - w| ≤ (e₁ + e₂) / c := by
  have hscale : x / c - w = (x - w * c) / c := by field_simp
  rw [hscale, abs_div, abs_of_pos hc]
  exact div_le_div_of_nonneg_right ((abs_sub_le x y (w * c)).trans (add_le_add h₁ h₂)) hc.le

/-- What is added to the stock for a line whose factor is a ratio. -/
theorem converted_of_factor {d : Delivery} {r : ReceivedLine} {goods : GoodsReceiptLine} {ratio : ℚ}
    (hratio : 0 < ratio) (hfactor : r.factor = Binary64.ofRat ratio) (hgoods : goods.Holds r)
    (hreceive : d.receipt.before.receive d.receipt.quantity d.receipt.unitCost =
      some d.receipt.after)
    (hstock : d.receipt.quantity = r.stockQty) (hcost : d.receipt.unitCost = r.unitCost) :
    |((d.receipt.after.stockQty.scaled - d.receipt.before.stockQty.scaled : ℤ) : ℚ) / 10 ^ 3 -
      r.quantity.val * ratio| ≤ 502 / 10 ^ 6 ∧
    |d.receipt.unitCost.val - r.rate.val / ratio| ≤ 502 / 10 ^ 7 := by
  have hthousand : (1000 : Binary64).val = 10 ^ 3 := by
    rw [Binary64.val_ofNat_of_le (by norm_num)]
    norm_num
  have hmyriad : (10000 : Binary64).val = 10 ^ 4 := by
    rw [Binary64.val_ofNat_of_le (by norm_num)]
    norm_num
  obtain ⟨hq₁, hq₂⟩ := Decimal.ofNumber_nearest hthousand hgoods.stockQty
  obtain ⟨hc₁, hc₂⟩ := Decimal.ofNumber_nearest hmyriad hgoods.unitCost
  rw [hfactor] at hq₂ hc₂
  have hk : |(goods.stockQty.scaled : ℚ)| ≤ 2 ^ 40 := by
    exact_mod_cast goods.stockQty.abs_scaled_lt.le
  have hc : |(goods.unitCost.scaled : ℚ)| ≤ 2 ^ 40 := by
    exact_mod_cast goods.unitCost.abs_scaled_lt.le
  have hquantity := abs_mul_ratio_sub_le hratio (abs_le_of_near hk hq₂)
  have hprice := abs_div_ratio_sub_le hratio (abs_le_of_near hc hc₂)
  constructor
  · obtain ⟨stockQty, hadd, hrest⟩ := Option.bind_eq_some_iff.mp hreceive
    obtain ⟨costPerUnit, -, hafter⟩ := Option.bind_eq_some_iff.mp hrest
    have hadded : d.receipt.after.stockQty.scaled =
        d.receipt.before.stockQty.scaled + goods.stockQty.scaled := by
      rw [← Option.some_inj.mp hafter]
      refine Decimal.scaled_add_of_near (goods.stockQty.abs_scaled_lt.le.trans (by norm_num)) ?_ hadd
      rw [hstock]
      exact hq₁.trans (by norm_num)
    rw [hadded, add_sub_cancel_left]
    exact (abs_div_sub_le (by norm_num) hq₂ hquantity).trans (by norm_num)
  · have hstored := (abs_sub_le _ _ _).trans (add_le_add hc₁ hc₂)
    have herror := abs_div_sub_le (by norm_num) hstored hprice
    rw [mul_div_cancel_right₀ _ (by norm_num)] at herror
    rw [hcost]
    exact herror.trans (by norm_num)

/-! ### What is ordered -/

/-- The edit leaves stock and cost as they are. -/
structure Edit.Kept (e : Edit) : Prop where
  stockQty : e.after.stockQty = e.before.stockQty
  costPerUnit : e.after.costPerUnit = e.before.costPerUnit

theorem Edit.Kept.faithful {e : Edit} (h : e.Kept) (hharmless : e.Harmless) : e.Faithful := by
  have hvalue : e.after.value = e.before.value := by
    rw [RawMaterial.value, h.stockQty, h.costPerUnit]
    rfl
  rcases hharmless with hunit | ⟨hstock, -⟩
  · refine ⟨?_, .inr (by rw [hunit]), hvalue⟩
    rw [RawMaterial.amount, h.stockQty, hunit]
    rfl
  · have hnone : e.before.amount = 0 := by
      rw [RawMaterial.amount, hstock, Int.cast_zero, zero_div, zero_mul]
    refine ⟨?_, .inl hnone, hvalue⟩
    rw [hnone, RawMaterial.amount, h.stockQty, hstock, Int.cast_zero, zero_div, zero_mul]

/-- What goods may come for is in a unit that converts to that of the stock. -/
structure Converting (s : InventoryDb) : Prop where
  ids : ∀ m ∈ s.materials, m.id < s.next
  orders : ∀ po ∈ s.purchaseOrders, po.isLive = true → ∀ l ∈ po.lines,
    ∃ m ∈ s.materials, l.Resolved m
  lines : ∀ u ∈ s.unfinished, ∀ l ∈ u.lines, ∃ m ∈ s.materials, l.Resolved m
  edits : ∀ e ∈ s.edits, e.Kept
  deliveries : ∀ d ∈ s.deliveries, d.Converted

variable {s t : InventoryDb} {l : PurchaseOrderLine} {m : RawMaterial}

theorem PurchaseOrderLine.Resolved.of_unit {m' : RawMaterial} (h : l.Resolved m)
    (hid : m'.id = m.id) (hunit : m'.unit = m.unit) : l.Resolved m' :=
  ⟨hid.trans h.id, hunit ▸ h.factor, h.rate⟩

theorem PurchaseOrderLine.Same.resolved {l' : PurchaseOrderLine} (h : l'.Same l)
    (hl : l'.Resolved m) : l.Resolved m := by
  have hsame : ({ l' with receivedQty := 0 } : PurchaseOrderLine) = { l with receivedQty := 0 } := h
  have hid : l'.rawMaterialId = l.rawMaterialId :=
    (congrArg PurchaseOrderLine.rawMaterialId hsame :)
  have hunit : l'.unit = l.unit := (congrArg PurchaseOrderLine.unit hsame :)
  have hfactor : l'.unitFactor = l.unitFactor := (congrArg PurchaseOrderLine.unitFactor hsame :)
  have hrate : l'.rate = l.rate := (congrArg PurchaseOrderLine.rate hsame :)
  exact ⟨hid ▸ hl.id, hunit ▸ hfactor ▸ hl.factor, hrate ▸ hl.rate⟩

/-- A line stays resolved when a material is written, but with another unit for its own. -/
theorem resolved_put (h : ∃ m₀ ∈ s.materials, l.Resolved m₀)
    (hm : ∀ m₀ ∈ s.materials, m₀.id = m.id → l.Resolved m₀ → m.unit = m₀.unit) :
    ∃ m₁ ∈ (s.setMaterial m).materials, l.Resolved m₁ := by
  obtain ⟨m₀, hm₀, hresolved⟩ := h
  by_cases hid : m₀.id = m.id
  · exact ⟨m, KeyedTable.mem_put.mpr (.inl rfl),
      hresolved.of_unit hid.symm (hm m₀ hm₀ hid hresolved)⟩
  · exact ⟨m₀, KeyedTable.mem_put.mpr (.inr ⟨hm₀, hid⟩), hresolved⟩

/-- A material is written whose unit is as before, if there is a line for it. -/
theorem Converting.set (h : Converting s) (hid : m.id < s.next)
    (horders : ∀ po ∈ s.purchaseOrders, po.isLive = true → ∀ l ∈ po.lines,
      ∀ m₀ ∈ s.materials, m₀.id = m.id → l.Resolved m₀ → m.unit = m₀.unit)
    (hlines : ∀ u ∈ s.unfinished, ∀ l ∈ u.lines,
      ∀ m₀ ∈ s.materials, m₀.id = m.id → l.Resolved m₀ → m.unit = m₀.unit) :
    Converting (s.setMaterial m) := by
  refine ⟨fun m' hm' => ?_, fun po hpo hlive l hl => ?_, fun u hu l hl => ?_, h.edits,
    h.deliveries⟩
  · rcases KeyedTable.mem_put.mp hm' with rfl | ⟨hm', -⟩
    · exact hid
    · exact h.ids m' hm'
  · exact resolved_put (h.orders po hpo hlive l hl) (horders po hpo hlive l hl)
  · exact resolved_put (h.lines u hu l hl) (hlines u hu l hl)

/-- A material keeps its unit. -/
theorem Converting.keep {n : RawMaterial} (h : Converting s) (hm : m ∈ s.materials)
    (hid : n.id = m.id) (hunit : n.unit = m.unit) : Converting (s.setMaterial n) := by
  have hkept : ∀ m₀ ∈ s.materials, m₀.id = n.id → n.unit = m₀.unit := by
    intro m₀ hm₀ hid₀
    rw [KeyedTable.eq_of_mem hm₀ hm (hid₀.trans hid), hunit]
  exact h.set (hid ▸ h.ids m hm) (fun _ _ _ _ _ m₀ hm₀ hid₀ _ => hkept m₀ hm₀ hid₀)
    fun _ _ _ _ m₀ hm₀ hid₀ _ => hkept m₀ hm₀ hid₀

theorem receive_keeps {r : Receipt} (h : r.before.receive r.quantity r.unitCost = some r.after) :
    r.after.id = r.before.id ∧ r.after.unit = r.before.unit := by
  obtain ⟨stockQty, -, h⟩ := Option.bind_eq_some_iff.mp h
  obtain ⟨costPerUnit, -, h⟩ := Option.bind_eq_some_iff.mp h
  rw [← Option.some_inj.mp h]
  exact ⟨rfl, rfl⟩

theorem Converting.received {r : Receipt} (h : Converting s) (hr : Received s r t) :
    Converting t := by
  obtain ⟨hbefore, hreceive, movement, rfl⟩ := hr
  obtain ⟨hid, hunit⟩ := receive_keeps hreceive
  have hkept := h.keep hbefore hid hunit
  exact ⟨hkept.ids, hkept.orders, hkept.lines, hkept.edits, hkept.deliveries⟩

/-- What is received of a line that goods may come for is converted. -/
theorem Converting.converted {r : ReceivedLine} {receipt : Receipt} {goods : GoodsReceiptLine}
    (h : Converting s) (hr : Received s receipt t) (hline : s.Listed r.line)
    (hid : receipt.before.id = r.line.rawMaterialId) (hstock : receipt.quantity = r.stockQty)
    (hcost : receipt.unitCost = r.unitCost) (hgoods : goods.Holds r) :
    Delivery.Converted ⟨r.line, r.quantity, r.rate, receipt⟩ := by
  obtain ⟨hbefore, hreceive, -⟩ := hr
  obtain ⟨po, hpo, hlive, l', hl', hsame⟩ := hline
  obtain ⟨m, hm, hresolved⟩ := h.orders po hpo hlive l' hl'
  replace hresolved := hsame.resolved hresolved
  obtain rfl := KeyedTable.eq_of_mem hm hbefore (hresolved.id.trans hid.symm)
  obtain ⟨factor, hfactor, hstored⟩ := Option.bind_eq_some_iff.mp hresolved.factor
  obtain ⟨ratio, hratio, hpos, hvalue, hnonzero⟩ := ratio_of_unitFactor hfactor hstored
  have hused : r.factor = Binary64.ofRat ratio := by
    rw [ReceivedLine.factor, if_neg hnonzero, hvalue]
  exact ⟨ratio, hratio, converted_of_factor (d := ⟨r.line, r.quantity, r.rate, receipt⟩) hpos hused
    hgoods hreceive hstock hcost⟩

/-- Nothing is ordered of a material that has no line. -/
theorem ne_of_ordered {id : ℕ} (h : s.ordered id = false) :
    (∀ po ∈ s.purchaseOrders, po.isLive = true → ∀ l ∈ po.lines, l.rawMaterialId ≠ id) ∧
      ∀ u ∈ s.unfinished, ∀ l ∈ u.lines, l.rawMaterialId ≠ id := by
  obtain ⟨horders, hlines⟩ := not_or.mp (of_decide_eq_false h)
  refine ⟨fun po hpo hlive l hl hid => horders (List.any_eq_true.mpr ⟨po, hpo, ?_⟩),
    fun u hu l hl hid => hlines (List.any_eq_true.mpr ⟨u, hu, ?_⟩)⟩
  · exact decide_eq_true ⟨hlive, l, hl, hid⟩
  · exact List.any_eq_true.mpr ⟨l, hl, decide_eq_true hid⟩

theorem resolved_numbered {lines : List PurchaseOrderLine}
    (h : ∀ l ∈ lines, ∃ m ∈ s.materials, l.Resolved m) :
    ∀ l ∈ s.numbered lines, ∃ m ∈ s.materials, l.Resolved m := by
  intro l hl
  obtain ⟨l', hl', id, rfl⟩ := mem_numbered hl
  obtain ⟨m, hm, hresolved⟩ := h l' hl'
  exact ⟨m, hm, hresolved.id, hresolved.factor, hresolved.rate⟩

theorem Received.edits {r : Receipt} (h : Received s r t) : t.edits = s.edits := by
  obtain ⟨-, -, _, rfl⟩ := h
  rfl

/-- Edits that are harmless in the end were so before. -/
theorem Effect.harmless (heffect : Effect s t) (h : ∀ e ∈ t.edits, e.Harmless) :
    ∀ e ∈ s.edits, e.Harmless := by
  cases heffect with
  | edit m hm name unit => exact fun e he => h e (List.mem_append_left _ he)
  | receipt r hr => exact hr.edits ▸ h
  | deliver r receipt hr => exact hr.edits ▸ h
  | _ => exact h

/-- While edits are harmless, orders stay in units that convert. -/
theorem Effect.converting (heffect : Effect s t) (hharmless : ∀ e ∈ t.edits, e.Harmless)
    (h : Converting s) : Converting t := by
  cases heffect with
  | create m later hid hcost hlater =>
    have hfresh : ∀ m₀ ∈ s.materials, m₀.id ≠ m.id := fun m₀ hm₀ => hid ▸ (h.ids m₀ hm₀).ne
    refine ⟨fun m' hm' => ?_, fun po hpo hlive l hl => ?_, fun u hu l hl => ?_, h.edits,
      h.deliveries⟩
    · rcases KeyedTable.mem_put.mp hm' with rfl | ⟨hm', -⟩
      · exact hid ▸ Nat.lt_succ_self _
      · exact (h.ids m' hm').trans (Nat.lt_succ_self _)
    · exact resolved_put (h.orders po hpo hlive l hl)
        fun m₀ hm₀ hid₀ _ => absurd hid₀ (hfresh m₀ hm₀)
    · rcases List.mem_append.mp hu with hu | hu
      · exact resolved_put (h.lines u hu l hl)
          fun m₀ hm₀ hid₀ _ => absurd hid₀ (hfresh m₀ hm₀)
      · obtain ⟨q, c, rfl⟩ := hlater u hu
        exact absurd hl List.not_mem_nil
  | edit m hm name unit =>
    have hset : Converting (s.setMaterial { m with
        name := name
        unit := unit }) := by
      rcases hharmless _ (List.mem_append_right _ (List.mem_singleton_self _)) with hunit | ⟨-, hnone⟩
      · exact h.keep hm rfl hunit
      · obtain ⟨horders, hlines⟩ := ne_of_ordered hnone
        refine h.set (h.ids m hm) (fun po hpo hlive l hl m₀ _ hid hresolved => ?_)
          fun u hu l hl m₀ _ hid hresolved => ?_
        · exact absurd (hresolved.id.symm.trans hid) (horders po hpo hlive l hl)
        · exact absurd (hresolved.id.symm.trans hid) (hlines u hu l hl)
    refine ⟨hset.ids, hset.orders, hset.lines, fun e he => ?_, hset.deliveries⟩
    rcases List.mem_append.mp he with he | he
    · exact h.edits e he
    · obtain rfl := List.mem_singleton.mp he
      exact ⟨rfl, rfl⟩
  | delete m hm => exact h.keep hm rfl rfl
  | receipt r hr => exact h.received hr
  | move m hm stockQty movement =>
    have hkept := h.keep (n := { m with stockQty := stockQty }) hm rfl rfl
    exact ⟨hkept.ids, hkept.orders, hkept.lines, hkept.edits, hkept.deliveries⟩
  | begin u hu =>
    refine ⟨h.ids, h.orders, fun u' hu' => ?_, h.edits, h.deliveries⟩
    rcases List.mem_append.mp hu' with hu' | hu'
    · exact h.lines u' hu'
    · obtain rfl := List.mem_singleton.mp hu'
      cases u' with
      | opening | batch => exact fun l hl => absurd hl List.not_mem_nil
      | order lines | orderLines id lines => exact hu
  | batch b hb m hm hid stockQty costPerUnit hcost movement =>
    have hkept := h.keep (n := { m with
      stockQty := stockQty
      costPerUnit := costPerUnit }) hm rfl rfl
    exact ⟨hkept.ids, hkept.orders, hkept.lines, hkept.edits, hkept.deliveries⟩
  | order lines hlines poNumber =>
    have hnext : s.next ≤ s.next + lines.length + 1 := by omega
    refine ⟨fun m hm => (h.ids m hm).trans_le hnext, fun po hpo hlive => ?_, h.lines, h.edits,
      h.deliveries⟩
    rcases KeyedTable.mem_put.mp hpo with rfl | ⟨hpo, -⟩
    · exact resolved_numbered (h.lines _ hlines)
    · exact h.orders po hpo hlive
  | orderLines po hpo hlive lines hlines =>
    have hnext : s.next ≤ s.next + lines.length := Nat.le_add_right _ _
    refine ⟨fun m hm => (h.ids m hm).trans_le hnext, fun po' hpo' hlive' => ?_, h.lines, h.edits,
      h.deliveries⟩
    rcases KeyedTable.mem_put.mp hpo' with rfl | ⟨hpo', -⟩
    · exact resolved_numbered (h.lines _ hlines)
    · exact h.orders po' hpo' hlive'
  | status id status hlive =>
    refine ⟨h.ids, fun po hpo hpolive => ?_, h.lines, h.edits, h.deliveries⟩
    obtain ⟨po₀, hpo₀, rfl⟩ := List.mem_map.mp (KeyedTable.mem_def.mp hpo)
    by_cases hid : po₀.id = id
    · rw [if_pos (decide_eq_true hid)] at hpolive ⊢
      exact h.orders po₀ hpo₀ (hlive po₀ hpo₀ hid hpolive)
    · rw [if_neg fun h => hid (of_decide_eq_true h)] at hpolive ⊢
      exact h.orders po₀ hpo₀ hpolive
  | deliver r receipt hr hline hid hquantity hrate hstock hcost poId receivedQty goods hgoods =>
    have hconverted := h.converted hr hline hid hstock hcost hgoods
    have hreceived := h.received hr
    refine ⟨hreceived.ids, fun po hpo hlive l hl => ?_, hreceived.lines, hreceived.edits,
      fun d hd => ?_⟩
    · obtain ⟨po₀, hpo₀, rfl⟩ := List.mem_map.mp (KeyedTable.mem_def.mp hpo)
      split at hlive
      · rename_i hpoid
        rw [if_pos hpoid] at hl
        obtain ⟨l₀, hl₀, rfl⟩ := List.mem_map.mp hl
        obtain ⟨m, hm, hresolved⟩ := hreceived.orders po₀ hpo₀ hlive l₀ hl₀
        refine ⟨m, hm, ?_⟩
        split
        · exact ⟨hresolved.id, hresolved.factor, hresolved.rate⟩
        · exact hresolved
      · rename_i hpoid
        rw [if_neg hpoid] at hl
        exact hreceived.orders po₀ hpo₀ hlive l hl
    · rcases List.mem_append.mp hd with hd | hd
      · exact hreceived.deliveries d hd
      · obtain rfl := List.mem_singleton.mp hd
        exact hconverted
  | drop i =>
    exact ⟨h.ids, h.orders, fun u hu => h.lines u (List.mem_of_mem_eraseIdx hu), h.edits,
      h.deliveries⟩
  | count next hnext planning counts posted postings =>
    exact ⟨fun m hm => (h.ids m hm).trans_le hnext, h.orders, h.lines, h.edits, h.deliveries⟩
  | opening movement => exact ⟨h.ids, h.orders, h.lines, h.edits, h.deliveries⟩

/-- Whatever is ordered, edited and received in parts, in whatever order: while no edit writes
another unit to what is stocked or ordered, every receipt adds what was received in the unit of the
stock, at a cost by that unit, and every edit leaves quantity and value as they are. -/
theorem units_converted (s : InventoryDb) (h : inventory.Reachable s)
    (hedits : ∀ e ∈ s.edits, e.Harmless) :
    (∀ d ∈ s.deliveries, d.Converted) ∧ ∀ e ∈ s.edits, e.Faithful := by
  have hinvariant : (∀ e ∈ s.edits, e.Harmless) → Converting s := by
    refine inventory_invariant (I := fun s => (∀ e ∈ s.edits, e.Harmless) → Converting s)
      (fun _ => ⟨fun m hm => ?_, fun po hpo => ?_, fun u hu => ?_, fun e he => ?_, fun d hd => ?_⟩)
      (fun s t heffect hs hharmless =>
        heffect.converting hharmless (hs (heffect.harmless hharmless))) h
    · exact absurd hm (KeyedTable.notMem_empty m)
    · exact absurd hpo (KeyedTable.notMem_empty po)
    · exact absurd hu List.not_mem_nil
    · exact absurd he List.not_mem_nil
    · exact absurd hd List.not_mem_nil
  have hconverting := hinvariant hedits
  exact ⟨hconverting.deliveries, fun e he => (hconverting.edits e he).faithful (hedits e he)⟩

/-! ### Flour by the gramme -/

theorem fifth_nonneg : 0 ≤ Binary64.ofRat (1 / 5) := by decide +kernel

theorem threeHundred_pos : (0 : Binary64) < 300 := by decide +kernel

theorem fiveHundred_pos : (0 : Binary64) < 500 := by decide +kernel

theorem no_rate : ∀ r ∈ (none : Option Binary64), 0 ≤ r := fun _ hr => absurd hr (by simp)

/-- Half a kilogramme of flour, at a fifth of a rupee by the gramme. -/
def flourByGramme : PoLineInput := ⟨0, 500, some .G, .ofRat (1 / 5), fiveHundred_pos, fifth_nonneg⟩

def threeHundredGrammes : ReceiveLineInput := ⟨1, 300, none, threeHundred_pos.le, no_rate⟩

/-- Flour is bought by the gramme, renamed, and received in parts. -/
def byGrammeRun : List InventoryAction :=
  [.createMaterial flour, .createOrder [flourByGramme], .resume 1, .actOnOrder 2 .approve,
    .receiveOrder 2 0 [threeHundredGrammes], .updateMaterial 0 ⟨some "Fine flour", none⟩,
    .receiveOrder 2 100 [threeHundredGrammes]]

theorem units_converted_byGrammeRun :
    (inventory.run .empty byGrammeRun).deliveries.map (·.receipt.after.stockQty.scaled) =
      [10300, 10600] ∧
    (∀ d ∈ (inventory.run .empty byGrammeRun).deliveries, d.Converted) ∧
      ∀ e ∈ (inventory.run .empty byGrammeRun).edits, e.Faithful :=
  ⟨by decide +kernel, units_converted _ (Machine.reachable_run byGrammeRun (.init rfl))
    (by decide +kernel)⟩

/-- The flour is stocked by the gramme when what was ordered by the gramme comes. -/
def restockedRun : List InventoryAction :=
  [.createMaterial flour, .createOrder [flourByGramme], .resume 1, .actOnOrder 2 .approve,
    .updateMaterial 0 ⟨none, some .G⟩, .receiveOrder 2 0 [threeHundredGrammes]]

/-- Three hundred grammes add less than one. -/
theorem not_units_converted : ¬∀ s : InventoryDb, inventory.Reachable s →
    (∀ d ∈ s.deliveries, d.Converted) ∧ ∀ e ∈ s.edits, e.Faithful := by
  intro h
  have hreceived := (h _ (Machine.reachable_run restockedRun (.init rfl))).1
  have hwrong : ∃ d ∈ (inventory.run .empty restockedRun).deliveries, ¬d.Converted := by
    decide +kernel
  obtain ⟨d, hd, hnot⟩ := hwrong
  exact hnot (hreceived d hd)

end StelloKitchens.Inventory
