import StelloKitchens.Lib.Checked
import StelloKitchens.Edge.Catalog
import StelloKitchens.Shared.EdgeProtocol

/-!
# Orders of the device

The order a device keeps, and the resolution of what an operator asks for into priced lines
against the device's catalog. A request that fails a check is refused with the error the operator
sees.

## Main definitions

* `Order`, `OrderLine` — the state of an order and of its lines.
* `resolveLine`, `resolveCombo` — an item or a combo at the prices of the catalog.
* `orderTotals` — the figures of an order from its lines.

## Main results

* `resolveLine_spec`, `resolveCombo_spec` — the lines that are resolved are well formed.
-/

namespace StelloKitchens

open Checked

/-- A refusal of the device: the message shown and the HTTP status. -/
structure EdgeError where
  message : String
  status : ℕ
  deriving DecidableEq

/-- A refusal with the default status. -/
def EdgeError.bad (message : String) : EdgeError := ⟨message, 400⟩

/-- A text that `crypto.randomUUID` can return. -/
structure Uuid where
  text : String
  wellFormed : text.toList.length = 36 ∧ text.toList.all fun c => c.isAlphanum || c == '-'

namespace Uuid

@[ext] theorem ext {u v : Uuid} (h : u.text = v.text) : u = v := by
  cases u
  cases v
  simpa using h

instance : DecidableEq Uuid := fun u v => decidable_of_iff (u.text = v.text) ⟨ext, congrArg text⟩

end Uuid

/-! ### Lines and orders -/

/-- What was ordered on a line. -/
inductive LineSource
  | item (itemId : String) (variationId : Option String) (addonIds : List String)
  | combo (comboId : String) (selections : List ComboSelection)
  deriving DecidableEq

def LineSource.kind : LineSource → LineKind
  | .item .. => .item
  | .combo .. => .combo

structure OrderLine where
  source : LineSource
  quantity : Binary64
  note : Option String
  itemName : String
  variationName : Option String
  addonNames : List String
  unitPrice : Binary64
  lineTotal : Binary64
  taxRate : Binary64
  stationId : Option String
  stationName : String
  prepStatus : PrepStatus
  preppedAt : Option Time
  /-- The round the line was fired in; 0 until it is. -/
  kotNo : ℕ
  deriving DecidableEq

def OrderLine.kind (l : OrderLine) : LineKind := l.source.kind

structure Order where
  clientId : Uuid
  orderType : OrderType
  tableId : Option String
  tableName : Option String
  customerName : Option String
  customerPhone : Option String
  deliveryAddress : Option String
  lines : List OrderLine
  payments : List EdgePayment
  manualDiscount : Binary64
  couponCode : Option String
  couponDiscount : Binary64
  totals : OrderTotals
  status : OrderStatus
  billNo : Option EdgeBillNo
  offlineRef : Option String
  kotCount : ℕ
  createdAt : Time
  closedAt : Option Time
  createdByStaffId : Option String
  closedByStaffId : Option String
  lastAddedByStaffId : Option String
  cancelReason : Option String
  clientUpdatedAt : Time
  deriving DecidableEq

/-! ### Resolving an item -/

structure LineInput where
  itemId : String
  quantity : Binary64
  variationId : Option String
  addonIds : List String
  note : Option String
  deriving DecidableEq

/-- The quantity of a line is a whole number of at least one. -/
def checkQuantity (quantity : Binary64) : Except EdgeError Unit :=
  ensure (quantity.IsInteger ∧ 1 ≤ quantity)
    (.bad "Quantity must be a whole number of at least 1")

/-- The price before add-ons: that of the chosen variation, or of the item. -/
def EdgeItemData.basePrice (item : EdgeItemData) (input : LineInput) :
    Except EdgeError (Binary64 × Option String) :=
  match truthy input.variationId with
  | none => .ok (item.price, none)
  | some id => do
    let v ← orThrow (item.variations.find? (·.id = id))
      (.bad ("Invalid variation for " ++ item.name))
    return (v.price, some v.name)

/-- A group's selection stays between its minimum and its maximum. -/
def EdgeAddonGroup.check (addonIds : List String) (g : EdgeAddonGroup) : Except EdgeError Unit :=
  let n : ℤ := (g.addons.filter (·.id ∈ addonIds)).length
  ensure (g.minSelect ≤ n ∧ n ≤ g.maxSelect)
    (.bad (g.name ++ ": select between " ++ toString g.minSelect ++ " and " ++
      toString g.maxSelect))

/-- Add the price and the name of one add-on. -/
def EdgeItemData.addAddon (item : EdgeItemData) (acc : Binary64 × List String) (id : String) :
    Except EdgeError (Binary64 × List String) := do
  let a ← orThrow ((item.addonGroups.flatMap (·.addons)).find? (·.id = id))
    (.bad ("Invalid addon for " ++ item.name))
  return (acc.1 + toPaise a.price, acc.2 ++ [a.name])

/-- The kitchen station of a category. -/
def Catalog.station (cat : Catalog) (categoryId : String) : Option String × String :=
  let category := cat.category? categoryId
  (truthy (category.bind (·.stationId)),
    (truthy (category.bind (·.stationName))).getD "Kitchen")

/-- One item at the prices of the catalog. -/
def resolveLine (cat : Catalog) (input : LineInput) : Except EdgeError OrderLine := do
  let item ← orThrow (cat.item? input.itemId) (.bad ("Unknown item " ++ input.itemId))
  ensure item.inStock (.bad (item.name ++ " is out of stock"))
  checkQuantity input.quantity
  let (unitPrice, variationName) ← item.basePrice input
  ensure input.addonIds.Nodup (.bad "Duplicate addons are not allowed")
  item.addonGroups.forM (EdgeAddonGroup.check input.addonIds)
  let (unitPaise, addonNames) ← input.addonIds.foldlM item.addAddon (toPaise unitPrice, [])
  let (stationId, stationName) := cat.station item.categoryId
  let unit := fromPaise unitPaise
  return {
    source := .item item.id (truthy input.variationId) input.addonIds
    quantity := input.quantity
    note := truthy input.note
    itemName := item.name
    variationName := variationName
    addonNames := addonNames
    unitPrice := unit
    lineTotal := fromPaise (lineTotalPaise unit input.quantity)
    taxRate := item.taxRate
    stationId := stationId
    stationName := stationName
    prepStatus := .pending
    preppedAt := none
    kotNo := 0 }

/-! ### Resolving a combo -/

structure ComboInput where
  comboId : String
  quantity : Binary64
  selections : List ComboSelection
  note : Option String
  deriving DecidableEq

/-- The price, the selections and the component names gathered over the slots of a combo. -/
structure ComboChoice where
  unitPaise : Binary64
  selections : List ComboSelection
  componentNames : List String

/-- The choice for one slot: the selected option, else the default one, else the first. -/
def EdgeComboData.chooseSlot (combo : EdgeComboData) (input : ComboInput) (acc : ComboChoice)
    (slot : EdgeComboSlot) : Except EdgeError ComboChoice := do
  let sel := input.selections.find? (·.slotId = slot.id)
  let chosen := sel.bind fun sel => slot.options.find? (·.itemId = sel.itemId)
  ensure (sel.isSome → chosen.isSome) (.bad ("Invalid choice for " ++ slot.name))
  let option ← orThrow (chosen <|> slot.options.find? (·.isDefault) <|> slot.options.head?)
    (.bad (combo.name ++ ": " ++ slot.name ++ " has no options"))
  ensure option.inStock (.bad (option.name ++ " is out of stock"))
  return {
    unitPaise := acc.unitPaise + toPaise option.priceDelta
    selections := acc.selections ++ [⟨slot.id, option.itemId⟩]
    componentNames := acc.componentNames ++ [option.name] }

/-- One combo at the prices of the catalog. -/
def resolveCombo (cat : Catalog) (input : ComboInput) : Except EdgeError OrderLine := do
  let combo ← orThrow (cat.combo? input.comboId) (.bad ("Unknown combo " ++ input.comboId))
  ensure combo.inStock (.bad (combo.name ++ " is unavailable"))
  checkQuantity input.quantity
  let choice ← combo.slots.foldlM (combo.chooseSlot input) ⟨toPaise combo.price, [], []⟩
  let (stationId, stationName) := cat.station combo.categoryId
  let unit := fromPaise choice.unitPaise
  return {
    source := .combo combo.id choice.selections
    quantity := input.quantity
    note := truthy input.note
    itemName := combo.name
    variationName := none
    addonNames := choice.componentNames
    unitPrice := unit
    lineTotal := fromPaise (lineTotalPaise unit input.quantity)
    taxRate := combo.taxRate
    stationId := stationId
    stationName := stationName
    prepStatus := .pending
    preppedAt := none
    kotNo := 0 }

/-- The items and then the combos of one request. -/
def resolveItems (cat : Catalog) (items : List LineInput) (combos : List ComboInput) :
    Except EdgeError (List OrderLine) := do
  let items ← items.mapM (resolveLine cat)
  let combos ← combos.mapM (resolveCombo cat)
  return items ++ combos

/-! ### Totals -/

/-- A line as the device's totals see it. -/
def OrderLine.money (l : OrderLine) : MoneyLine := ⟨toPaise l.lineTotal, l.taxRate⟩

/-- The figures of an order, from its lines and a discount. -/
def orderTotals (lines : List OrderLine) (discountAmount : Binary64) : OrderTotals :=
  computeOrderTotals (lines.map OrderLine.money) discountAmount

/-! ### What a resolved line looks like -/

/-- The facts about a line that hold from the moment it is resolved. -/
structure OrderLine.WellFormed (l : OrderLine) : Prop where
  quantity_isInteger : l.quantity.IsInteger
  one_le_quantity : 1 ≤ l.quantity
  note_ne_empty : l.note ≠ some ""
  unitPrice_eq : ∃ paise, l.unitPrice = fromPaise paise
  lineTotal_eq : l.lineTotal = fromPaise (lineTotalPaise l.unitPrice l.quantity)

theorem truthy_ne_empty (s : Option String) : truthy s ≠ some "" := by
  intro h
  simpa using (Option.filter_eq_some_iff.mp h).2

theorem checkQuantity_eq_ok {q : Binary64} {u : Unit} :
    checkQuantity q = .ok u ↔ q.IsInteger ∧ 1 ≤ q := ensure_eq_ok

/-- A resolved item is a well-formed line of the catalog's item. -/
theorem resolveLine_spec {cat : Catalog} {input : LineInput} {l : OrderLine}
    (h : resolveLine cat input = .ok l) :
    l.WellFormed ∧ ∃ item, cat.item? input.itemId = some item ∧ l.taxRate = item.taxRate ∧
      l.source = .item item.id (truthy input.variationId) input.addonIds := by
  simp only [resolveLine, bind_eq_ok, orThrow_eq_ok, ensure_eq_ok, checkQuantity_eq_ok,
    pure_eq_ok] at h
  obtain ⟨item, hitem, -, -, -, ⟨hint, hone⟩, base, -, -, -, -, -, addons, -, rfl⟩ := h
  exact ⟨⟨hint, hone, truthy_ne_empty _, ⟨_, rfl⟩, rfl⟩, item, hitem, rfl, rfl⟩

/-- A resolved combo is a well-formed line of the catalog's combo. -/
theorem resolveCombo_spec {cat : Catalog} {input : ComboInput} {l : OrderLine}
    (h : resolveCombo cat input = .ok l) :
    l.WellFormed ∧ ∃ combo selections, cat.combo? input.comboId = some combo ∧
      l.taxRate = combo.taxRate ∧ l.source = .combo combo.id selections := by
  simp only [resolveCombo, bind_eq_ok, orThrow_eq_ok, ensure_eq_ok, checkQuantity_eq_ok,
    pure_eq_ok] at h
  obtain ⟨combo, hcombo, -, -, -, ⟨hint, hone⟩, choice, -, rfl⟩ := h
  exact ⟨⟨hint, hone, truthy_ne_empty _, ⟨_, rfl⟩, rfl⟩, combo, _, hcombo, rfl, rfl⟩

/-- Every line of a resolved request is well formed. -/
theorem resolveItems_wellFormed {cat : Catalog} {items : List LineInput}
    {combos : List ComboInput} {lines : List OrderLine}
    (h : resolveItems cat items combos = .ok lines) : ∀ l ∈ lines, l.WellFormed := by
  simp only [resolveItems, bind_eq_ok, pure_eq_ok] at h
  obtain ⟨ls, hls, cs, hcs, rfl⟩ := h
  intro l hl
  rcases List.mem_append.mp hl with hl | hl
  · obtain ⟨input, -, hl⟩ := forall_mem_of_mapM hls l hl
    exact (resolveLine_spec hl).1
  · obtain ⟨input, -, hl⟩ := forall_mem_of_mapM hcs l hl
    exact (resolveCombo_spec hl).1

end StelloKitchens
