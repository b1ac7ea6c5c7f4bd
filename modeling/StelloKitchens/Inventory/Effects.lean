import StelloKitchens.Inventory.Procurement

/-!
# What requests do to the stock

Every request that succeeds is, on the materials and the orders, a sequence of a few effects: a
material is created or edited, its stock moves, something is received, a batch is stored, an order is
written or its goods arrive. What every effect keeps holds of every state.

## Main definitions

* `Received` — a receipt is applied.
* `Effect` — what a request may do, one at a time.

## Main results

* `effects_of_perform` — a request that succeeds is a sequence of effects.
* `inventory_invariant` — what effects keep holds in every state reached.
-/

namespace StelloKitchens.Inventory

open Checked Relation

/-! ### Effects -/

/-- The line is for this material, by the unit that it has. -/
structure PurchaseOrderLine.Resolved (l : PurchaseOrderLine) (m : RawMaterial) : Prop where
  id : m.id = l.rawMaterialId
  factor : (Inventory.unitFactor l.unit m.unit).bind Decimal.ofNumber = some l.unitFactor
  rate : 0 ≤ l.rate.scaled

/-- The lines are the same, but for what was received. -/
def PurchaseOrderLine.Same (l l' : PurchaseOrderLine) : Prop :=
  { l with receivedQty := 0 } = { l' with receivedQty := 0 }

/-- The line is one of an order that goods may be received against. -/
def InventoryDb.Listed (s : InventoryDb) (l : PurchaseOrderLine) : Prop :=
  ∃ po ∈ s.purchaseOrders, po.isLive = true ∧ ∃ l' ∈ po.lines, l'.Same l

/-- The row of what was received holds what was added to the stock, and at what cost. -/
structure GoodsReceiptLine.Holds (goods : GoodsReceiptLine) (r : ReceivedLine) : Prop where
  stockQty : Decimal.ofNumber r.stockQty = some goods.stockQty
  unitCost : Decimal.ofNumber r.unitCost = some goods.unitCost

/-- What a request has read for what it has left to write. -/
def Unfinished.Read (s : InventoryDb) : Unfinished → Prop
  | .opening _ _ _ => True
  | .batch b => 0 < b.quantity ∧
    (∃ m ∈ s.materials, m.id = b.rawMaterialId ∧ m.stockQty = b.stockQty ∧
      m.costPerUnit = b.costPerUnit) ∧
    ∀ n ∈ b.needs, 0 ≤ n.need ∧ ∃ m ∈ s.materials, m.costPerUnit = n.costPerUnit
  | .order lines => ∀ l ∈ lines, ∃ m ∈ s.materials, l.Resolved m
  | .orderLines _ lines => ∀ l ∈ lines, ∃ m ∈ s.materials, l.Resolved m

/-- A receipt is applied. -/
def Received (s : InventoryDb) (r : Receipt) (t : InventoryDb) : Prop :=
  r.before ∈ s.materials ∧ r.before.receive r.quantity r.unitCost = some r.after ∧
    ∃ movement : StockMovement, t = { s.setMaterial r.after with
      movements := s.movements ++ [movement]
      receipts := s.receipts ++ [r] }

/-- What requests do to materials and orders. -/
inductive Effect (s : InventoryDb) : InventoryDb → Prop
  | create (m : RawMaterial) (later : List Unfinished) (hid : m.id = s.next)
      (hcost : 0 ≤ m.costPerUnit.scaled) (hlater : ∀ u ∈ later, ∃ q c, u = .opening m.id q c) :
      Effect s { s.setMaterial m with
        next := s.next + 1
        unfinished := s.unfinished ++ later }
  | edit (m : RawMaterial) (hm : m ∈ s.materials) (name : String) (unit : MaterialUnit) :
      Effect s { s.setMaterial { m with
          name := name
          unit := unit } with
        edits := s.edits ++ [⟨m, { m with
          name := name
          unit := unit }, s.ordered m.id⟩] }
  | delete (m : RawMaterial) (hm : m ∈ s.materials) :
      Effect s (s.setMaterial { m with deleted := true })
  | receipt (r : Receipt) {t : InventoryDb} (h : Received s r t) (hquantity : 0 < r.quantity)
      (hcost : 0 ≤ r.unitCost) : Effect s t
  | move (m : RawMaterial) (hm : m ∈ s.materials) (stockQty : Decimal 12 3)
      (movement : StockMovement) : Effect s { s.setMaterial { m with stockQty := stockQty } with
        movements := s.movements ++ [movement] }
  | opening (movement : StockMovement) : Effect s { s with movements := s.movements ++ [movement] }
  | begin (u : Unfinished) (h : u.Read s) : Effect s { s with unfinished := s.unfinished ++ [u] }
  | batch (b : Batch) (hb : .batch b ∈ s.unfinished) (m : RawMaterial) (hm : m ∈ s.materials)
      (hid : m.id = b.rawMaterialId) (stockQty : Decimal 12 3) (costPerUnit : Decimal 12 4)
      (hcost : Decimal.ofNumber b.blendedCost = some costPerUnit) (movement : StockMovement) :
      Effect s { s.setMaterial { m with
          stockQty := stockQty
          costPerUnit := costPerUnit } with
        movements := s.movements ++ [movement]
        batches := s.batches ++ [b] }
  | order (lines : List PurchaseOrderLine) (h : .order lines ∈ s.unfinished) (poNumber : String) :
      Effect s { s with
        next := s.next + lines.length + 1
        purchaseOrders := s.purchaseOrders.put
          ⟨s.next + lines.length, poNumber, .DRAFT, s.numbered lines⟩ }
  | orderLines (po : PurchaseOrder) (hpo : po ∈ s.purchaseOrders) (hlive : po.isLive = true)
      (lines : List PurchaseOrderLine) (h : .orderLines po.id lines ∈ s.unfinished) :
      Effect s { s with
        next := s.next + lines.length
        purchaseOrders := s.purchaseOrders.put { po with lines := s.numbered lines } }
  | status (id : ℕ) (status : PoStatus)
      (hlive : ∀ po ∈ s.purchaseOrders, po.id = id → { po with status := status }.isLive = true →
        po.isLive = true) : Effect s (s.setOrderStatus id status)
  | deliver (r : ReceivedLine) (receipt : Receipt) {t : InventoryDb} (h : Received s receipt t)
      (hline : s.Listed r.line) (hid : receipt.before.id = r.line.rawMaterialId)
      (hquantity : 0 < r.quantity) (hrate : 0 ≤ r.rate ∨ r.rate = D r.line.rate)
      (hstock : receipt.quantity = r.stockQty) (hcost : receipt.unitCost = r.unitCost) (poId : ℕ)
      (receivedQty : Decimal 12 3) (goods : GoodsReceiptLine) (hgoods : goods.Holds r) :
      Effect s { t.addReceived poId r.line.id receivedQty with
        goodsReceipts := t.goodsReceipts ++ [goods]
        deliveries := t.deliveries ++ [⟨r.line, r.quantity, r.rate, receipt⟩] }
  | drop (i : ℕ) : Effect s (s.drop i)
  | count (next : ℕ) (hnext : s.next ≤ next) (planning : KeyedTable MaterialPlanning.rawMaterialId)
      (counts : KeyedTable StockCount.id) (posted : List ℕ) (postings : List Posting) :
      Effect s { s with
        next := next
        planning := planning
        counts := counts
        posted := posted
        postings := postings }

/-- A sequence of effects. -/
abbrev Effects : InventoryDb → InventoryDb → Prop := ReflTransGen Effect

variable {s t : InventoryDb} {id : ℕ}

/-! ### Statements -/

theorem requireMaterial_eq_ok {m : RawMaterial} (h : s.requireMaterial id = .ok m) :
    m ∈ s.materials ∧ m.id = id ∧ m.deleted = false := by
  obtain ⟨hfind, hdeleted⟩ := Option.filter_eq_some_iff.mp (orThrow_eq_ok.mp h)
  obtain ⟨hm, hid⟩ := KeyedTable.find?_eq_some.mp hfind
  exact ⟨hm, hid, by simpa using hdeleted⟩

/-- A movement that is recorded has the quantity as its column holds it. -/
theorem record_eq_ok {type : MovementType} {quantity : Binary64} {unitCost : Option Binary64}
    {ref : MovementRef} (h : s.record id type quantity unitCost ref = .ok t) :
    ∃ (q : Decimal 12 3) (c : Option (Decimal 12 4)), Decimal.ofNumber quantity = some q ∧
      t = { s with movements := s.movements ++ [⟨id, type, q, c, ref⟩] } := by
  obtain ⟨q, hq, h⟩ := bind_eq_ok.mp h
  obtain ⟨c, -, h⟩ := bind_eq_ok.mp h
  exact ⟨q, c, orThrow_eq_ok.mp hq, (pure_eq_ok.mp h).symm⟩

theorem increment_eq_some {m m' : RawMaterial} {quantity : Binary64}
    (h : m.increment quantity = some m') : ∃ stockQty : Decimal 12 3, stockQty.scaled =
      Decimal.roundHalfAway (m.stockQty.scaled + quantity.shortest * 10 ^ 3) ∧
      m' = { m with stockQty := stockQty } := by
  obtain ⟨stockQty, hstock, h⟩ := Option.bind_eq_some_iff.mp h
  exact ⟨stockQty, Decimal.ofScaled_eq_some.mp hstock, (Option.some_inj.mp h).symm⟩

/-- The row and the ledger move together. -/
theorem move_eq_ok {type : MovementType} {quantity : Binary64} {unitCost : Option Binary64}
    {ref : MovementRef} (h : s.move id type quantity unitCost ref = .ok t) :
    ∃ m ∈ s.materials, m.id = id ∧ ∃ (stockQty q : Decimal 12 3) (c : Option (Decimal 12 4)),
      stockQty.scaled = Decimal.roundHalfAway (m.stockQty.scaled + quantity.shortest * 10 ^ 3) ∧
      Decimal.ofNumber quantity = some q ∧
      t = { s.setMaterial { m with stockQty := stockQty } with
        movements := s.movements ++ [⟨id, type, q, c, ref⟩] } := by
  obtain ⟨m, hm, h⟩ := bind_eq_ok.mp h
  obtain ⟨hm, hid⟩ := KeyedTable.find?_eq_some.mp (orThrow_eq_ok.mp hm)
  obtain ⟨m', hincrement, h⟩ := bind_eq_ok.mp h
  obtain ⟨stockQty, hscaled, rfl⟩ := increment_eq_some (orThrow_eq_ok.mp hincrement)
  obtain ⟨q, c, hq, rfl⟩ := record_eq_ok h
  exact ⟨m, hm, hid, stockQty, q, c, hscaled, hq, rfl⟩

theorem effect_move {type : MovementType} {quantity : Binary64} {unitCost : Option Binary64}
    {ref : MovementRef} (h : s.move id type quantity unitCost ref = .ok t) : Effect s t := by
  obtain ⟨m, hm, -, stockQty, q, c, -, -, rfl⟩ := move_eq_ok h
  exact .move m hm stockQty _

/-- A receipt is of a material that is not deleted, and is recorded. -/
theorem applyReceipt_eq_ok {quantity unitCost : Binary64} {ref : MovementRef} {r : Receipt}
    (h : s.applyReceipt id quantity unitCost ref = .ok (t, r)) :
    Received s r t ∧ r.before.id = id ∧ r.quantity = quantity ∧ r.unitCost = unitCost := by
  obtain ⟨m, hm, h⟩ := bind_eq_ok.mp h
  obtain ⟨hm, hid, -⟩ := requireMaterial_eq_ok hm
  obtain ⟨m', hreceive, h⟩ := bind_eq_ok.mp h
  obtain ⟨s₁, hrecord, h⟩ := bind_eq_ok.mp h
  obtain ⟨q, c, -, rfl⟩ := record_eq_ok hrecord
  cases pure_eq_ok.mp h
  exact ⟨⟨hm, orThrow_eq_ok.mp hreceive, _, rfl⟩, hid, rfl, rfl⟩

/-- A loop each of whose steps is a sequence of effects. -/
theorem effects_of_foldlM {γ : Type} {f : InventoryDb → γ → Result InventoryDb} {l : List γ}
    (hstep : ∀ s c t, f s c = .ok t → Effects s t) (h : l.foldlM f s = .ok t) : Effects s t :=
  foldlM_invariant (Effects s) (fun _ _ _ hs _ hf => hs.trans (hstep _ _ _ hf)) h .refl

/-! ### Requests -/

theorem effects_createMaterial {input : CreateMaterialInput} (h : s.createMaterial input = .ok t) :
    Effects s t := by
  obtain ⟨stockQty, -, h⟩ := bind_eq_ok.mp h
  obtain ⟨costPerUnit, hcost, h⟩ := bind_eq_ok.mp h
  have hnonneg := Decimal.scaled_nonneg_of_ofNumber
    (Binary64.nonneg_iff.mp input.costPerUnit_nonneg) (orThrow_eq_ok.mp hcost)
  cases pure_eq_ok.mp h
  by_cases hpos : 0 < input.stockQty
  · rw [if_pos hpos]
    exact .single (.create ⟨s.next, input.name, input.unit, stockQty, costPerUnit, false⟩
      [.opening s.next input.stockQty input.costPerUnit] rfl hnonneg
      fun u hu => ⟨_, _, List.mem_singleton.mp hu⟩)
  · rw [if_neg hpos, ← List.append_nil s.unfinished]
    exact .single (.create ⟨s.next, input.name, input.unit, stockQty, costPerUnit, false⟩ [] rfl
      hnonneg fun u hu => absurd hu List.not_mem_nil)

theorem effects_updateMaterial {input : UpdateMaterialInput}
    (h : s.updateMaterial id input = .ok t) : Effects s t := by
  obtain ⟨m, hrequire, h⟩ := bind_eq_ok.mp h
  obtain ⟨hm, rfl, -⟩ := requireMaterial_eq_ok hrequire
  cases pure_eq_ok.mp h
  exact .single (.edit m hm _ _)

theorem effects_deleteMaterial {usedBy : ℕ} (h : s.deleteMaterial id usedBy = .ok t) :
    Effects s t := by
  obtain ⟨m, hm, h⟩ := bind_eq_ok.mp h
  obtain ⟨hm, -, -⟩ := requireMaterial_eq_ok hm
  obtain ⟨_, -, h⟩ := bind_eq_ok.mp h
  cases pure_eq_ok.mp h
  exact .single (.delete m hm)

theorem effects_receiveStock {input : ReceiveStockInput} (h : s.receiveStock id input = .ok t) :
    Effects s t := by
  obtain ⟨⟨t, r⟩, hreceipt, rfl⟩ := map_eq_ok.mp h
  obtain ⟨hreceived, -, hquantity, hcost⟩ := applyReceipt_eq_ok hreceipt
  exact .single (.receipt r hreceived (hquantity ▸ input.quantity_pos)
    (hcost ▸ input.unitCost_nonneg))

theorem effects_recordWastage {input : WastageInput} (h : s.recordWastage id input = .ok t) :
    Effects s t := by
  obtain ⟨m, -, h⟩ := bind_eq_ok.mp h
  exact .single (effect_move h)

theorem effects_satelliteMaterial (item : IndentItem) :
    Effects s (s.satelliteMaterial item).1 := by
  unfold InventoryDb.satelliteMaterial
  split
  · exact .refl
  · have heffect := Effect.create (s := s)
      ⟨s.next, item.materialName, item.unit, 0, item.unitCost, false⟩ [] rfl item.unitCost_nonneg
      fun u hu => absurd hu List.not_mem_nil
    rw [List.append_nil] at heffect
    exact .single heffect

theorem needOf_eq_ok {quantity : Binary64} {r : PrepIngredient} {n : Need}
    (h : s.needOf quantity r = .ok n) : n.need = D r.quantity * quantity ∧
      ∃ m ∈ s.materials, m.id = n.rawMaterialId ∧ m.costPerUnit = n.costPerUnit := by
  obtain ⟨m, hm, h⟩ := bind_eq_ok.mp h
  obtain ⟨hm, -⟩ := KeyedTable.find?_eq_some.mp (orThrow_eq_ok.mp hm)
  obtain ⟨_, -, h⟩ := bind_eq_ok.mp h
  cases pure_eq_ok.mp h
  exact ⟨rfl, m, hm, rfl, rfl⟩

theorem zero_le_toNumber {p scale : ℕ} {d : Decimal p scale} (h : 0 ≤ d.scaled) :
    0 ≤ d.toNumber := by
  refine Binary64.zero_le_ofRat ?_
  have : (0 : ℚ) ≤ d.scaled := by exact_mod_cast h
  positivity

theorem effects_produceBatch {prepRecipe : List PrepIngredient} {quantity : Binary64}
    (hquantity : 0 < quantity) (h : s.produceBatch id prepRecipe quantity = .ok t) :
    Effects s t := by
  obtain ⟨m, hm, h⟩ := bind_eq_ok.mp h
  obtain ⟨hm, hid, -⟩ := requireMaterial_eq_ok hm
  obtain ⟨_, -, h⟩ := bind_eq_ok.mp h
  obtain ⟨needs, hneeds, h⟩ := bind_eq_ok.mp h
  cases pure_eq_ok.mp h
  refine .single (.begin _ ⟨hquantity, ⟨m, hm, hid, rfl, rfl⟩, fun n hn => ?_⟩)
  obtain ⟨r, -, hr⟩ := forall_mem_of_mapM hneeds n hn
  obtain ⟨hneed, m', hm', -, hcost⟩ := needOf_eq_ok hr
  rw [hneed]
  exact ⟨Binary64.zero_le_mul (zero_le_toNumber r.quantity_nonneg) hquantity.le, m', hm', hcost⟩

/-- The ingredients go out, and then the batch is stored. -/
theorem storeBatch_eq_ok {b : Batch} (h : s.storeBatch b = .ok t) : ∃ s₁,
    b.needs.foldlM (fun db n => db.move n.rawMaterialId .productionOut (-n.need)
      (some (D n.costPerUnit)) (.production b.rawMaterialId)) s = .ok s₁ ∧
    ∃ m ∈ s₁.materials, m.id = b.rawMaterialId ∧ ∃ (stockQty q : Decimal 12 3)
      (costPerUnit : Decimal 12 4) (c : Option (Decimal 12 4)),
      Decimal.ofNumber b.newQty = some stockQty ∧
      Decimal.ofNumber b.blendedCost = some costPerUnit ∧
      Decimal.ofNumber b.quantity = some q ∧
      t = { s₁.setMaterial { m with
          stockQty := stockQty
          costPerUnit := costPerUnit } with
        movements := s₁.movements ++ [⟨b.rawMaterialId, .productionIn, q, c, .none⟩]
        batches := s₁.batches ++ [b] } := by
  obtain ⟨s₁, hneeds, h⟩ := bind_eq_ok.mp h
  obtain ⟨m, hm, h⟩ := bind_eq_ok.mp h
  obtain ⟨hm, hid⟩ := KeyedTable.find?_eq_some.mp (orThrow_eq_ok.mp hm)
  obtain ⟨stockQty, hstock, h⟩ := bind_eq_ok.mp h
  obtain ⟨costPerUnit, hcost, h⟩ := bind_eq_ok.mp h
  obtain ⟨s₂, hrecord, h⟩ := bind_eq_ok.mp h
  obtain ⟨q, c, hq, rfl⟩ := record_eq_ok hrecord
  cases pure_eq_ok.mp h
  exact ⟨s₁, hneeds, m, hm, hid, stockQty, q, costPerUnit, c, orThrow_eq_ok.mp hstock,
    orThrow_eq_ok.mp hcost, hq, rfl⟩

theorem move_unfinished {type : MovementType} {quantity : Binary64} {unitCost : Option Binary64}
    {ref : MovementRef} (h : s.move id type quantity unitCost ref = .ok t) :
    t.unfinished = s.unfinished := by
  obtain ⟨m, -, -, stockQty, q, c, -, -, rfl⟩ := move_eq_ok h
  rfl

theorem effects_storeBatch {b : Batch} (hb : .batch b ∈ s.unfinished) (h : s.storeBatch b = .ok t) :
    Effects s t := by
  obtain ⟨s₁, hneeds, m, hm, hid, stockQty, q, costPerUnit, c, -, hcost, -, rfl⟩ :=
    storeBatch_eq_ok h
  have hbegun : Effects s s₁ ∧ .batch b ∈ s₁.unfinished := by
    refine foldlM_invariant (fun s₁ => Effects s s₁ ∧ .batch b ∈ s₁.unfinished)
      (fun s₁ n s₂ hs _ hmove => ?_) hneeds ⟨.refl, hb⟩
    exact ⟨hs.1.tail (effect_move hmove), move_unfinished hmove ▸ hs.2⟩
  exact hbegun.1.tail (.batch b hbegun.2 m hm hid stockQty costPerUnit hcost _)

theorem resolveLine_eq_ok {input : PoLineInput} {l : PurchaseOrderLine}
    (h : s.resolveLine input = .ok l) : ∃ m ∈ s.materials, l.Resolved m := by
  obtain ⟨m, hm, h⟩ := bind_eq_ok.mp h
  obtain ⟨hfind, -⟩ := Option.filter_eq_some_iff.mp (orThrow_eq_ok.mp hm)
  obtain ⟨hm, -⟩ := KeyedTable.find?_eq_some.mp hfind
  obtain ⟨factor, hfactor, h⟩ := bind_eq_ok.mp h
  obtain ⟨stored, hstored, h⟩ := bind_eq_ok.mp h
  obtain ⟨orderedQty, -, h⟩ := bind_eq_ok.mp h
  obtain ⟨rate, hrate, h⟩ := bind_eq_ok.mp h
  cases pure_eq_ok.mp h
  refine ⟨m, hm, rfl, ?_, Decimal.scaled_nonneg_of_ofNumber
    (Binary64.nonneg_iff.mp input.rate_nonneg) (orThrow_eq_ok.mp hrate)⟩
  rw [orThrow_eq_ok.mp hfactor]
  exact orThrow_eq_ok.mp hstored

theorem resolveLines_eq_ok {input : List PoLineInput} {lines : List PurchaseOrderLine}
    (h : s.resolveLines input = .ok lines) : ∀ l ∈ lines, ∃ m ∈ s.materials, l.Resolved m := by
  intro l hl
  obtain ⟨i, -, hi⟩ := forall_mem_of_mapM h l hl
  exact resolveLine_eq_ok hi

theorem requireOrder_eq_ok {po : PurchaseOrder} (h : s.requireOrder id = .ok po) :
    po ∈ s.purchaseOrders ∧ po.id = id :=
  KeyedTable.find?_eq_some.mp (orThrow_eq_ok.mp h)

theorem effects_replaceLines {lines : List PurchaseOrderLine}
    (hlines : .orderLines id lines ∈ s.unfinished) (h : s.replaceLines id lines = .ok t) :
    Effects s t := by
  replace h := bind_eq_ok.mp h
  obtain ⟨po, hrequire, h⟩ := h
  obtain ⟨hpo, rfl⟩ := requireOrder_eq_ok hrequire
  obtain ⟨_, hedit, h⟩ := bind_eq_ok.mp h
  have hdraft : po.status = .DRAFT := by simpa [canEditPo] using ensure_eq_ok.mp hedit
  cases pure_eq_ok.mp h
  refine .single (.orderLines po hpo ?_ lines hlines)
  rw [PurchaseOrder.isLive, hdraft]
  rfl

/-- No action makes an order live again. -/
theorem live_of_nextPoStatus {status status' : PoStatus} {action : PoAction}
    (h : nextPoStatus status action = some status') :
    status ∈ [PoStatus.DRAFT, .APPROVED, .SENT, .PARTIALLY_RECEIVED] ∨ status' = .CLOSED := by
  cases action <;> simp only [nextPoStatus, Option.ite_none_right_eq_some] at h
  · exact .inl (by simp [h.1])
  · exact .inl (by simp [h.1])
  · exact .inl (by have := h.1; simp at this ⊢; tauto)
  · exact .inr (Option.some_inj.mp h.2).symm

theorem effects_actOnOrder {action : PoAction} (h : s.actOnOrder id action = .ok t) :
    Effects s t := by
  replace h := bind_eq_ok.mp h
  obtain ⟨po, hrequire, h⟩ := h
  obtain ⟨hpo, rfl⟩ := requireOrder_eq_ok hrequire
  obtain ⟨status, hnext, h⟩ := bind_eq_ok.mp h
  cases pure_eq_ok.mp h
  refine .single (.status po.id status fun po' hpo' hid hlive => ?_)
  obtain rfl := KeyedTable.eq_of_mem hpo' hpo hid
  rcases live_of_nextPoStatus (orThrow_eq_ok.mp hnext) with hfrom | rfl
  · exact decide_eq_true hfrom
  · exact absurd hlive (by simp [PurchaseOrder.isLive])

/-! ### Goods received -/

/-- What is received is of lines of the order, something of each. -/
theorem receivedLines_eq_ok {po : PurchaseOrder} {overReceiptPct : Binary64}
    {input : List ReceiveLineInput} {receipts : List ReceivedLine}
    (h : receivedLines po overReceiptPct input = .ok receipts) : ∀ r ∈ receipts,
      r.line ∈ po.lines ∧ 0 < r.quantity ∧ (0 ≤ r.rate ∨ r.rate = D r.line.rate) := by
  refine foldlM_invariant (fun receipts => ∀ r ∈ receipts, r.line ∈ po.lines ∧ 0 < r.quantity ∧
    (0 ≤ r.rate ∨ r.rate = D r.line.rate)) (fun receipts l receipts' hreceipts hl h => ?_) h
    fun r hr => absurd hr List.not_mem_nil
  obtain ⟨line, hline, h⟩ := bind_eq_ok.mp h
  obtain ⟨_, -, h⟩ := bind_eq_ok.mp h
  obtain ⟨_, -, h⟩ := bind_eq_ok.mp h
  cases pure_eq_ok.mp h
  intro r hr
  rcases List.mem_append.mp hr with hr | hr
  · exact hreceipts r hr
  · obtain rfl := List.mem_singleton.mp hr
    refine ⟨List.mem_of_find?_eq_some (orThrow_eq_ok.mp hline),
      of_decide_eq_true (List.mem_filter.mp hl).2, ?_⟩
    cases hrate : l.rate with
    | none => exact .inr rfl
    | some rate => exact .inl (l.rate_nonneg rate hrate)

/-- What is received leaves the lines as they are, but for how much was received. -/
theorem listed_addReceived {l : PurchaseOrderLine} (h : s.Listed l) (poId lineId : ℕ)
    (receivedQty : Decimal 12 3) : (s.addReceived poId lineId receivedQty).Listed l := by
  obtain ⟨po, hpo, hlive, l', hl', hsame⟩ := h
  by_cases hid : po.id = poId
  · refine ⟨_, KeyedTable.mem_def.mpr (List.mem_map_of_mem hpo), ?_⟩
    rw [if_pos (decide_eq_true hid)]
    refine ⟨hlive, _, List.mem_map_of_mem hl', ?_⟩
    split
    · exact hsame
    · exact hsame
  · refine ⟨_, KeyedTable.mem_def.mpr (List.mem_map_of_mem hpo), ?_⟩
    rw [if_neg fun h => hid (of_decide_eq_true h)]
    exact ⟨hlive, l', hl', hsame⟩

theorem Received.purchaseOrders {r : Receipt} (h : Received s r t) :
    t.purchaseOrders = s.purchaseOrders := by
  obtain ⟨-, -, _, rfl⟩ := h
  rfl

/-- A line is received, and stays listed with the others. -/
theorem receiveLine_eq_ok {poId grnId : ℕ} {r : ReceivedLine}
    (h : s.receiveLine poId grnId r = .ok t) : ∃ (receipt : Receipt) (s₁ : InventoryDb)
      (receivedQty : Decimal 12 3) (goods : GoodsReceiptLine), Received s receipt s₁ ∧
      goods.Holds r ∧ receipt.before.id = r.line.rawMaterialId ∧ receipt.quantity = r.stockQty ∧
      receipt.unitCost = r.unitCost ∧ t = { s₁.addReceived poId r.line.id receivedQty with
        goodsReceipts := s₁.goodsReceipts ++ [goods]
        deliveries := s₁.deliveries ++ [⟨r.line, r.quantity, r.rate, receipt⟩] } := by
  obtain ⟨⟨s₁, receipt⟩, hreceipt, h⟩ := bind_eq_ok.mp h
  obtain ⟨hreceived, hid, hquantity, hcost⟩ := applyReceipt_eq_ok hreceipt
  obtain ⟨quantity, -, h⟩ := bind_eq_ok.mp h
  obtain ⟨rate, -, h⟩ := bind_eq_ok.mp h
  obtain ⟨stockQty, hstored, h⟩ := bind_eq_ok.mp h
  obtain ⟨unitCost, hpriced, h⟩ := bind_eq_ok.mp h
  obtain ⟨receivedQty, -, h⟩ := bind_eq_ok.mp h
  cases pure_eq_ok.mp h
  exact ⟨receipt, s₁, receivedQty, _, hreceived, ⟨orThrow_eq_ok.mp hstored, orThrow_eq_ok.mp hpriced⟩,
    hid, hquantity, hcost, rfl⟩

/-- The goods of an order arrive line by line, and then it has its status. -/
theorem receiveOrder_eq_ok {overReceiptPct : Binary64} {input : List ReceiveLineInput}
    (h : s.receiveOrder id overReceiptPct input = .ok t) : ∃ po ∈ s.purchaseOrders, po.id = id ∧
      po.isLive = true ∧ ∃ (receipts : List ReceivedLine) (s₁ : InventoryDb) (status : PoStatus),
      (∀ r ∈ receipts, r.line ∈ po.lines ∧ 0 < r.quantity ∧
        (0 ≤ r.rate ∨ r.rate = D r.line.rate)) ∧
      receipts.foldlM (fun db r => db.receiveLine id s.next r) { s with next := s.next + 1 } =
        .ok s₁ ∧ t = s₁.setOrderStatus id status := by
  replace h := bind_eq_ok.mp h
  obtain ⟨po, hrequire, h⟩ := h
  obtain ⟨hpo, rfl⟩ := requireOrder_eq_ok hrequire
  obtain ⟨_, hcan, h⟩ := bind_eq_ok.mp h
  obtain ⟨receipts, hreceipts, h⟩ := bind_eq_ok.mp h
  obtain ⟨_, -, h⟩ := bind_eq_ok.mp h
  obtain ⟨s₁, hfold, h⟩ := bind_eq_ok.mp h
  cases pure_eq_ok.mp h
  have hlive : po.isLive = true := by
    have h := of_decide_eq_true (ensure_eq_ok.mp hcan)
    exact decide_eq_true (List.mem_cons_of_mem _ h)
  exact ⟨po, hpo, rfl, hlive, _, s₁, _,
    fun r hr => receivedLines_eq_ok hreceipts r (List.mem_mergeSort.mp hr), hfold, rfl⟩

/-- Numbers are drawn. -/
theorem effect_next {next : ℕ} (hnext : s.next ≤ next) : Effect s { s with next := next } :=
  .count next hnext s.planning s.counts s.posted s.postings

theorem effects_receiveOrder {overReceiptPct : Binary64} {input : List ReceiveLineInput}
    (h : s.receiveOrder id overReceiptPct input = .ok t) : Effects s t := by
  obtain ⟨po, hpo, rfl, hlive, receipts, s₁, status, hreceipts, hfold, rfl⟩ := receiveOrder_eq_ok h
  have hstart : Effects s { s with next := s.next + 1 } := .single (effect_next (Nat.le_succ _))
  have hlines : Effects s s₁ ∧ (∀ r ∈ receipts, s₁.Listed r.line) ∧
      ∀ po' ∈ s₁.purchaseOrders, po'.id = po.id → po'.isLive = true := by
    refine foldlM_invariant (fun s₁ => Effects s s₁ ∧ (∀ r ∈ receipts, s₁.Listed r.line) ∧
      ∀ po' ∈ s₁.purchaseOrders, po'.id = po.id → po'.isLive = true)
      (fun s₁ r s₂ hs hr hreceive => ?_) hfold ⟨hstart, fun r hr => ?_, fun po' hpo' hid => ?_⟩
    · obtain ⟨heffects, hlisted, hlives⟩ := hs
      obtain ⟨-, hquantity, hrate⟩ := hreceipts r hr
      obtain ⟨receipt, s', receivedQty, goods, hreceived, hgoods, hid, hstock, hcost, rfl⟩ :=
        receiveLine_eq_ok hreceive
      refine ⟨heffects.tail (.deliver r receipt hreceived (hlisted r hr) hid hquantity hrate hstock
        hcost po.id receivedQty goods hgoods), fun r' hr' => ?_, fun po' hpo' hid => ?_⟩
      · have hkept := hlisted r' hr'
        rw [InventoryDb.Listed, ← hreceived.purchaseOrders] at hkept
        exact listed_addReceived hkept po.id r.line.id receivedQty
      · obtain ⟨po₀, hpo₀, rfl⟩ := List.mem_map.mp (KeyedTable.mem_def.mp hpo')
        rw [hreceived.purchaseOrders] at hpo₀
        split at hid
        · rename_i h
          rw [if_pos h]
          exact hlives po₀ hpo₀ hid
        · rename_i h
          rw [if_neg h]
          exact hlives po₀ hpo₀ hid
    · exact ⟨po, hpo, hlive, r.line, (hreceipts r hr).1, rfl⟩
    · rw [KeyedTable.eq_of_mem hpo' hpo hid]
      exact hlive
  exact hlines.1.tail (.status po.id status fun po' hpo' hid _ => hlines.2.2 po' hpo' hid)

/-! ### Stocktakes -/

theorem effect_setLine {rawMaterialId : ℕ} {counted variance : Option (Decimal 12 3)} :
    Effect s (s.setLine id rawMaterialId counted variance) :=
  .count s.next le_rfl s.planning _ s.posted s.postings

theorem effect_setStatus {status : CountStatus} : Effect s (s.setStatus id status) :=
  .count s.next le_rfl s.planning _ s.posted s.postings

theorem effects_savePlanning {rows : List PlanningRow} (h : s.savePlanning rows = .ok t) :
    Effects s t := by
  obtain ⟨_, -, h⟩ := bind_eq_ok.mp h
  cases pure_eq_ok.mp h
  refine List.foldlRecOn rows InventoryDb.planRow .refl fun s₁ hs r _ => hs.tail ?_
  exact .count s₁.next le_rfl _ s₁.counts s₁.posted s₁.postings

theorem effects_createCount {input : CreateCountInput} (h : s.createCount input = .ok t) :
    Effects s t := by
  obtain ⟨_, -, h⟩ := bind_eq_ok.mp h
  cases hclash : s.clash (InventoryDb.countCategory input) with
  | some c =>
    rw [hclash] at h
    cases h
  | none =>
    rw [hclash] at h
    obtain ⟨_, -, h⟩ := bind_eq_ok.mp h
    cases pure_eq_ok.mp h
    exact .single (.count (s.next + 1) (Nat.le_succ _) s.planning _ s.posted s.postings)

theorem effects_enterCount {c : StockCount} {e : CountEntry} (h : s.enterCount c e = .ok t) :
    Effects s t := by
  obtain ⟨line, -, h⟩ := bind_eq_ok.mp h
  cases hcounted : e.countedQty with
  | none =>
    rw [hcounted] at h
    cases pure_eq_ok.mp h
    exact .single effect_setLine
  | some q =>
    rw [hcounted] at h
    obtain ⟨counted, -, h⟩ := bind_eq_ok.mp h
    obtain ⟨variance, -, h⟩ := bind_eq_ok.mp h
    cases pure_eq_ok.mp h
    exact .single effect_setLine

/-- A line is posted: nothing was counted more or less, or the stock moves by that. -/
theorem postLine_eq_ok {line : StockCountLine} {countedQty : Decimal 12 3}
    (h : s.postLine id line countedQty = .ok t) :
    (line.variance (D countedQty) = 0 ∧
      t = s.setLine id line.rawMaterialId (some countedQty) (some 0)) ∨
    ((∀ m ∈ s.materials, m.id ≠ line.rawMaterialId) ∧ t = s) ∨
    ∃ (unitCost : Option Binary64) (s₁ : InventoryDb) (varianceQty : Decimal 12 3),
      s.move line.rawMaterialId .adjustment (line.variance (D countedQty)) unitCost
        (.stocktake id) = .ok s₁ ∧
      t = s₁.setLine id line.rawMaterialId (some countedQty) (some varianceQty) := by
  unfold InventoryDb.postLine at h
  by_cases hzero : line.variance (D countedQty) = 0
  · rw [if_pos hzero] at h
    exact .inl ⟨hzero, (pure_eq_ok.mp h).symm⟩
  rw [if_neg hzero] at h
  cases hfind : s.materials.find? line.rawMaterialId with
  | none =>
    rw [hfind] at h
    exact .inr (.inl ⟨KeyedTable.find?_eq_none.mp hfind, (pure_eq_ok.mp h).symm⟩)
  | some m =>
    rw [hfind] at h
    obtain ⟨s₁, hmove, h⟩ := bind_eq_ok.mp h
    obtain ⟨varianceQty, -, h⟩ := bind_eq_ok.mp h
    exact .inr (.inr ⟨_, s₁, varianceQty, hmove, (pure_eq_ok.mp h).symm⟩)

theorem effects_postLine {line : StockCountLine} {countedQty : Decimal 12 3}
    (h : s.postLine id line countedQty = .ok t) : Effects s t := by
  rcases postLine_eq_ok h with ⟨-, rfl⟩ | ⟨-, rfl⟩ | ⟨unitCost, s₁, varianceQty, hmove, rfl⟩
  · exact .single effect_setLine
  · exact .refl
  · exact (ReflTransGen.single (effect_move hmove)).tail effect_setLine

theorem effects_postCount (h : s.postCount id = .ok t) : Effects s t := by
  obtain ⟨c, -, h⟩ := bind_eq_ok.mp h
  obtain ⟨_, -, h⟩ := bind_eq_ok.mp h
  obtain ⟨s₁, hlines, h⟩ := bind_eq_ok.mp h
  cases pure_eq_ok.mp h
  refine (effects_of_foldlM (fun s l t => effects_postLine) hlines).tail ?_
  exact .count s₁.next le_rfl s₁.planning _ _ _

/-! ### All requests -/

/-- What a request has left to write is among what has begun. -/
theorem effects_finish {u : Unfinished} (hu : u ∈ s.unfinished) (h : s.finish u = .ok t) :
    Effects s t := by
  cases u with
  | opening rawMaterialId quantity unitCost =>
    obtain ⟨q, c, -, rfl⟩ := record_eq_ok h
    exact .single (.opening _)
  | batch b => exact effects_storeBatch hu h
  | order lines =>
    cases pure_eq_ok.mp h
    exact .single (.order lines hu _)
  | orderLines id lines => exact effects_replaceLines hu h

/-- What it takes to carry on with an unfinished request. -/
theorem perform_resume_eq_ok {i : ℕ} (h : s.perform (.resume i) = .ok t) :
    s = t ∨ ∃ u s₁, s.unfinished[i]? = some u ∧ s.finish u = .ok s₁ ∧ s₁.drop i = t := by
  rw [InventoryDb.perform] at h
  split at h
  · exact .inl (pure_eq_ok.mp h)
  · rename_i u hu
    obtain ⟨s₁, hfinish, h⟩ := bind_eq_ok.mp h
    exact .inr ⟨u, s₁, hu, hfinish, pure_eq_ok.mp h⟩

/-- A request that succeeds is a sequence of effects. -/
theorem effects_of_perform {a : InventoryAction} (h : s.perform a = .ok t) : Effects s t := by
  cases a with
  | createMaterial input => exact effects_createMaterial h
  | updateMaterial id input => exact effects_updateMaterial h
  | deleteMaterial id usedBy => exact effects_deleteMaterial h
  | receiveStock id input => exact effects_receiveStock h
  | recordWastage id input => exact effects_recordWastage h
  | punchItems consumption =>
    exact effects_of_foldlM (fun s c t hmove => .single (effect_move hmove)) h
  | depleteSynced consumption =>
    refine effects_of_foldlM (fun s c t hstep => ?_) h
    split at hstep
    · exact .single (effect_move hstep)
    · cases pure_eq_ok.mp hstep
      exact .refl
  | dispatch items => exact effects_of_foldlM (fun s item t hmove => .single (effect_move hmove)) h
  | receiveIndent items =>
    exact effects_of_foldlM (fun s item t hmove =>
      (effects_satelliteMaterial item).tail (effect_move hmove)) h
  | produceBatch id prepRecipe quantity hquantity => exact effects_produceBatch hquantity h
  | createOrder input =>
    obtain ⟨lines, hlines, h⟩ := bind_eq_ok.mp h
    cases pure_eq_ok.mp h
    exact .single (.begin (.order lines) (resolveLines_eq_ok hlines))
  | updateOrder id input =>
    obtain ⟨lines, hlines, h⟩ := bind_eq_ok.mp h
    cases pure_eq_ok.mp h
    exact .single (.begin (.orderLines id lines) (resolveLines_eq_ok hlines))
  | actOnOrder id action => exact effects_actOnOrder h
  | receiveOrder id overReceiptPct input => exact effects_receiveOrder h
  | savePlanning rows => exact effects_savePlanning h
  | createCount input => exact effects_createCount h
  | enterCounts id entries =>
    obtain ⟨c, -, h⟩ := bind_eq_ok.mp h
    exact effects_of_foldlM (fun s e t => effects_enterCount) h
  | submitCount id =>
    obtain ⟨c, -, h⟩ := bind_eq_ok.mp h
    obtain ⟨_, -, h⟩ := bind_eq_ok.mp h
    obtain ⟨_, -, h⟩ := bind_eq_ok.mp h
    cases pure_eq_ok.mp h
    exact .single effect_setStatus
  | cancelCount id =>
    obtain ⟨c, -, h⟩ := bind_eq_ok.mp h
    cases pure_eq_ok.mp h
    exact .single effect_setStatus
  | postCount id => exact effects_postCount h
  | resume i =>
    obtain rfl | ⟨u, s₁, hu, hfinish, rfl⟩ := perform_resume_eq_ok h
    · exact .refl
    · exact (effects_finish (List.mem_of_getElem? hu) hfinish).tail (.drop i)
  | abandon i =>
    cases pure_eq_ok.mp h
    exact .single (.drop i)

theorem effects_step (s : InventoryDb) (a : InventoryAction) : Effects s (inventory.step s a) := by
  change Effects s (s.step a)
  unfold InventoryDb.step
  split
  · rename_i h
    exact effects_of_perform h
  · exact .single (.drop _)
  · exact .refl

/-- What holds at first and every effect keeps holds in every state reached. -/
theorem inventory_invariant {I : InventoryDb → Prop} (hinit : I .empty)
    (heffect : ∀ s t, Effect s t → I s → I t) (h : inventory.Reachable s) : I s :=
  Machine.invariant (fun _ hs => hs ▸ hinit)
    (fun s a _ hs _ => Machine.effects_keep heffect (effects_step s a) hs) h

end StelloKitchens.Inventory
