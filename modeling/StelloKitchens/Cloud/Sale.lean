import StelloKitchens.Lib.Checked
import StelloKitchens.Cloud.Store

/-!
# An offline sale as the cloud records it

What the ingest of one order works out from the order, the device and what its statements read:
the order row with its conflicts, its invoice number, its lines, its payments, and the stock it
consumed. The figures must add up as printed, and every item and combo must be in the outlet's
catalog; everything else is recorded as billed.

The sale is worked out from the values the statements return, so that the same definitions serve
a delivery on its own and deliveries that overlap.

## Main definitions

* `cloudTotals`, `checkFigures` — the figures of an order, recomputed and compared.
* `Reads` — what the statements of one transaction return.
* `SaleHead`, `SaleLines` — the two parts of a sale: up to its order row, and its lines.
-/

namespace StelloKitchens

open Checked

/-! ### Figures -/

/-- The lines of an order as the recomputation sees them: items, then combos. -/
def lineMoney (order : EdgeOrderInput) : List MoneyLine :=
  order.items.map (fun l => ⟨lineTotalPaise l.unitPrice l.quantity, l.taxRate⟩) ++
    order.combos.map fun l => ⟨lineTotalPaise l.unitPrice l.quantity, l.taxRate⟩

/-- The figures of an order, recomputed. -/
def cloudTotals (order : EdgeOrderInput) : OrderTotals :=
  computeOrderTotals (lineMoney order)
    (fromPaise (toPaise order.manualDiscount + toPaise order.couponDiscount))

/-- The sum of an order's payments in paise. -/
def paidInPaise (order : EdgeOrderInput) : Binary64 :=
  order.payments.foldl (fun s p => s + toPaise p.amount) 0

/-- The recomputed figures, if those of the order and its payments agree with them. -/
def checkFigures (order : EdgeOrderInput) : Except String OrderTotals := do
  let totals := cloudTotals order
  ensure (toPaise totals.subtotal = toPaise order.subtotal ∧
      toPaise totals.taxAmount = toPaise order.taxAmount ∧
      toPaise totals.total = toPaise order.total)
    ("Order figures do not add up (device total " ++ jsNumber order.total ++ ", recomputed " ++
      jsNumber totals.total ++ ")")
  ensure (order.status = .settled → paidInPaise order = toPaise totals.total)
    ("Payments " ++ jsNumber (fromPaise (paidInPaise order)) ++ " do not equal total " ++
      jsNumber totals.total)
  return totals

/-! ### What the statements read -/

/-- The values that the statements of one transaction return, and the id it draws. -/
structure Reads where
  now : Time
  orderId : ℕ
  /-- The staff of the order that are members of the outlet. -/
  knownStaff : List String
  tableExists : Bool
  coupon : Option Cloud.Coupon
  /-- The activation of the terminal that owns the series of the bill. -/
  owner : Option String
  /-- The bill number or its place in the series is taken. -/
  taken : Bool
  billNumber : ℕ
  kotNumber : ℕ
  item : String → Option Cloud.Item
  combo : String → Option Cloud.Combo
  cashSession : Option String

/-! ### Timestamps and conflicts -/

/-- Device timestamps farther than this from the server clock are flagged. -/
def skewWarnMs : ℤ := 5 * 60 * 1000

/-- A device timestamp with the measured skew taken off, and never in the future. -/
def corrected (now : Time) (skewMs : ℤ) (t : Stamp) : Time :=
  t.parse.elim now fun t => min (t + skewMs) now

/-- `Math.round(ms / 1000)`. -/
def roundedSeconds (ms : ℤ) : ℤ := (ms + 500) / 1000

def skewConflicts (skewMs : ℤ) : List EdgeConflict :=
  if skewWarnMs < |skewMs| then
    [⟨.clockSkew, "Device clock was off by " ++ toString (roundedSeconds skewMs) ++
      "s; sale times were corrected"⟩]
  else []

/-- A staff id that is a member of the outlet, else a conflict. -/
def staffOrNull (known : List String) (id : Option String) : Option String × List EdgeConflict :=
  match truthy id with
  | none => (none, [])
  | some id =>
    if id ∈ known then (some id, [])
    else (none, [⟨.staffUnknown, "Staff " ++ id ++ " is not a member of this outlet"⟩])

/-- The table of a dine-in order while it exists, else a conflict. -/
def tableOrNull (r : Reads) (order : EdgeOrderInput) : Option String × List EdgeConflict :=
  match order.orderType, truthy order.tableId with
  | .dineIn, some id =>
    if r.tableExists then (some id, [])
    else (none, [⟨.tableUnknown, "Dine-in table no longer exists; order filed without a table"⟩])
  | _, _ => (none, [])

/-! ### The coupon -/

/-- The conflict of a coupon that the cloud judges otherwise at the time of the sale. -/
def couponConflicts (coupon : Option Cloud.Coupon) (code : String) (couponDiscount : Binary64)
    (evaluation : CouponEvaluation) : List EdgeConflict :=
  let honoured := "; discount ₹" ++ jsNumber couponDiscount ++ " was honoured"
  if evaluation.valid then
    if toPaise evaluation.discount ≠ toPaise couponDiscount then
      [⟨.couponDiscountMismatch, "Coupon " ++ code ++ " would give ₹" ++
        jsNumber evaluation.discount ++ " now; device gave ₹" ++ jsNumber couponDiscount⟩]
    else []
  else
    match coupon.bind fun c => c.rule.usageLimit.map fun limit => (c.rule.usedCount, limit) with
    | some (used, limit) =>
      if limit ≤ used then
        [⟨.couponLimitExceeded, "Coupon " ++ code ++ " was over its usage limit (" ++
          toString used ++ "/" ++ toString limit ++ ") when this offline sale synced" ++ honoured⟩]
      else [⟨.couponInvalid, "Coupon " ++ code ++ ": " ++ evaluation.message ++ honoured⟩]
    | none => [⟨.couponInvalid, "Coupon " ++ code ++ ": " ++ evaluation.message ++ honoured⟩]

/-- The coupon of a sale: its code, the row to count and the conflicts. -/
def judgeCoupon (r : Reads) (order : EdgeOrderInput) (subtotal : Binary64) (closedAt : Time) :
    Option String × Option Cloud.Coupon × List EdgeConflict :=
  match truthy order.couponCode with
  | none => (none, none, [])
  | some code =>
    let code := code.toUpper
    let evaluation := evaluateCoupon (r.coupon.map (·.rule)) subtotal closedAt
    (some code, if order.status = .settled then r.coupon else none,
      couponConflicts r.coupon code order.couponDiscount evaluation)

/-! ### The invoice number -/

/-- The bill number of a settled sale, its place in a device series, and the conflicts. Without a
number of its own the sale takes one of the outlet's. -/
def fileInvoice (r : Reads) (device : EdgeDeviceContext) (order : EdgeOrderInput) :
    Option String × Option Cloud.EdgeInvoiceSeq × List EdgeConflict :=
  let fallback := some ("B-" ++ toString r.billNumber)
  if order.status ≠ .settled then (none, none, [])
  else
    match order.billNo with
    | none => (fallback, none, [])
    | some b =>
      let owner := if b.series = device.seriesCode then some device.edgeDeviceId else r.owner
      match owner, formatEdgeBillNumber b.series b.fy b.seq with
      | some owner, .ok expected =>
        if expected ≠ b.number then
          (fallback, none, [⟨.billSeriesMismatch, "Invoice " ++ b.number ++
            " does not belong to this device's series; a fallback number was assigned"⟩])
        else if r.taken then
          (fallback, none, [⟨.billNumberDuplicate, "Invoice " ++ b.number ++
            " was already used by another order; a fallback number was assigned"⟩])
        else
          (some b.number, some ⟨device.tenantId, device.outletId, owner, b.series, b.fy, b.seq,
            b.number, r.orderId⟩, [])
      | _, _ => (fallback, none, [⟨.billSeriesMismatch, "Invoice " ++ b.number ++
          " does not belong to this device's series; a fallback number was assigned"⟩])

/-! ### The order row -/

/-- A sale up to its order row. -/
structure SaleHead where
  row : Cloud.Order
  closedAt : Time
  coupon : Option Cloud.Coupon
  invoice : Option Cloud.EdgeInvoiceSeq
  /-- The sale takes the next bill number of the outlet. -/
  drawsBill : Bool
  conflicts : List EdgeConflict

/-- The first part of a sale with these figures. -/
def saleHeadOf (r : Reads) (device : EdgeDeviceContext) (order : EdgeOrderInput) (skewMs : ℤ)
    (totals : OrderTotals) : SaleHead :=
  let createdAt := corrected r.now skewMs order.createdAt
  let closedAt := corrected r.now skewMs order.closedAt
  let (createdById, createdConflicts) := staffOrNull r.knownStaff order.createdByStaffId
  let closedConflicts := if order.closedByStaffId = order.createdByStaffId then []
    else (staffOrNull r.knownStaff order.closedByStaffId).2
  let (tableId, tableConflicts) := tableOrNull r order
  let (couponCode, coupon, couponConflicts) := judgeCoupon r order totals.subtotal closedAt
  let (billNumber, invoice, billConflicts) := fileInvoice r device order
  { row := {
      id := r.orderId
      tenantId := device.tenantId
      outletId := device.outletId
      orderType := order.orderType
      status := order.status
      tableId := tableId
      customerName := order.customerName
      customerPhone := order.customerPhone
      couponCode := couponCode
      deviceId := device.terminalId
      clientId := order.clientId
      offlineRef := order.billNo.map (·.number)
      billNumber := billNumber
      subtotal := totals.subtotal
      discountAmount := totals.discountAmount
      taxAmount := totals.taxAmount
      total := totals.total
      createdById := createdById
      createdAt := createdAt }
    closedAt := closedAt
    coupon := coupon
    invoice := invoice
    drawsBill := order.status = .settled ∧ invoice = none
    conflicts := skewConflicts skewMs ++ createdConflicts ++ closedConflicts ++ tableConflicts ++
      couponConflicts ++ billConflicts }

/-- The first part of a sale; an order whose figures do not add up is refused. -/
def saleHead (r : Reads) (device : EdgeDeviceContext) (order : EdgeOrderInput) (skewMs : ℤ) :
    Except String SaleHead := do
  let totals ← checkFigures order
  return saleHeadOf r device order skewMs totals

/-! ### The lines -/

/-- The lines, the drifted prices and the consumption gathered so far. -/
structure SaleLines where
  rows : List Cloud.OrderItem
  drift : ℕ
  consumption : List (String × Binary64)

/-- Add the recipe of an item, taken a number of times. -/
def consume (consumption : List (String × Binary64)) (recipe : List Cloud.RecipeIngredient)
    (quantity : Binary64) : List (String × Binary64) :=
  recipe.foldl (fun acc r =>
    if acc.any (·.1 = r.rawMaterialId) then
      acc.map fun p => if p.1 = r.rawMaterialId then (p.1, p.2 + r.quantity * quantity) else p
    else acc ++ [(r.rawMaterialId, 0 + r.quantity * quantity)]) consumption

/-- When a line was ready: as the device says, but never in the future. -/
def readyAt (r : Reads) (closedAt : Time) (status : PrepStatus) (preppedAt : Option Stamp) :
    Option Time :=
  if status = .ready then some ((preppedAt.bind Stamp.parse).elim closedAt (min · r.now)) else none

/-- The price the catalog has now: of the variation or the item, with the add-ons. -/
def Cloud.Item.currentPrice (item : Cloud.Item) (variation : Option EdgePriced)
    (addons : List EdgePriced) : Binary64 :=
  (variation.elim item.price (·.price)) + addons.foldl (fun s a => s + a.price) 0

/-- One item line at the price that was billed. -/
def itemRow (r : Reads) (closedAt : Time) (acc : SaleLines) (line : EdgeOrderLineInput) :
    Except String SaleLines := do
  let item ← orThrow (r.item line.itemId)
    ("Item " ++ line.itemId ++ " does not exist in this outlet")
  let variation := (truthy line.variationId).bind fun id => item.variations.find? (·.id = id)
  let addons := line.addonIds.filterMap fun id => item.addons.find? (·.id = id)
  let drifted := toPaise (item.currentPrice variation addons) ≠ toPaise line.unitPrice
  return {
    rows := acc.rows ++ [{
      orderId := r.orderId
      lineNo := acc.rows.length
      itemId := item.id
      itemName := item.name
      variationId := variation.map (·.id)
      variationName := variation.map (·.name)
      quantity := line.quantity
      unitPrice := line.unitPrice
      lineTotal := fromPaise (lineTotalPaise line.unitPrice line.quantity)
      taxRate := line.taxRate
      note := line.note
      kot := some 0
      stationId := item.stationId
      comboId := none
      comboGroupId := none
      isComboComponent := false
      prepStatus := line.prepStatus
      preppedAt := readyAt r closedAt line.prepStatus line.preppedAt
      addons := addons.map fun a => ⟨a.id, a.name, a.price⟩ }]
    drift := if drifted then acc.drift + 1 else acc.drift
    consumption := consume acc.consumption item.recipe line.quantity }

/-- The item and the price difference of one slot: as selected, else the default, else the
first option. -/
def chosenOption (line : EdgeComboLineInput) (slot : Cloud.ComboSlot) : Option String × Binary64 :=
  let sel := line.selections.find? (·.slotId = slot.id)
  let option := (sel.bind fun sel => slot.options.find? (·.itemId = sel.itemId)) <|>
    slot.options.find? (·.isDefault) <|> slot.options.head?
  ((sel.map (·.itemId)) <|> option.map (·.itemId), option.elim 0 (·.priceDelta))

/-- The component lines of a combo; a component that left the catalog has none. -/
def componentRow (r : Reads) (closedAt : Time) (comboId : String) (group : ℕ)
    (line : EdgeComboLineInput) (acc : SaleLines) (itemId : Option String) : SaleLines :=
  match (truthy itemId).bind r.item with
  | none => acc
  | some item => {
    rows := acc.rows ++ [{
      orderId := r.orderId
      lineNo := acc.rows.length
      itemId := item.id
      itemName := item.name
      variationId := none
      variationName := none
      quantity := line.quantity
      unitPrice := 0
      lineTotal := 0
      taxRate := item.taxRate
      note := none
      kot := some 0
      stationId := item.stationId
      comboId := some comboId
      comboGroupId := some (r.orderId, group)
      isComboComponent := true
      prepStatus := line.prepStatus
      preppedAt := readyAt r closedAt line.prepStatus line.preppedAt
      addons := [] }]
    drift := acc.drift
    consumption := consume acc.consumption item.recipe line.quantity }

/-- One combo line at the price that was billed, with its components. -/
def comboRows (r : Reads) (closedAt : Time) (acc : SaleLines) (indexed : EdgeComboLineInput × ℕ) :
    Except String SaleLines := do
  let (line, group) := indexed
  let combo ← orThrow (r.combo line.comboId)
    ("Combo " ++ line.comboId ++ " does not exist in this outlet")
  let chosen := combo.slots.map (chosenOption line)
  let current := combo.price + chosen.foldl (fun s c => s + c.2) 0
  let drifted := toPaise current ≠ toPaise line.unitPrice
  let parent : Cloud.OrderItem := {
    orderId := r.orderId
    lineNo := acc.rows.length
    itemId := combo.id
    itemName := combo.name
    variationId := none
    variationName := none
    quantity := line.quantity
    unitPrice := line.unitPrice
    lineTotal := fromPaise (lineTotalPaise line.unitPrice line.quantity)
    taxRate := line.taxRate
    note := line.note
    kot := none
    stationId := none
    comboId := some combo.id
    comboGroupId := some (r.orderId, group)
    isComboComponent := false
    prepStatus := line.prepStatus
    preppedAt := readyAt r closedAt line.prepStatus line.preppedAt
    addons := [] }
  let acc : SaleLines :=
    { acc with
      rows := acc.rows ++ [parent]
      drift := if drifted then acc.drift + 1 else acc.drift }
  return chosen.foldl (fun acc c => componentRow r closedAt combo.id group line acc c.1) acc

/-- The lines of a sale; an order with an item or a combo the outlet never had is refused. -/
def saleLines (r : Reads) (order : EdgeOrderInput) (closedAt : Time) : Except String SaleLines := do
  let acc ← order.items.foldlM (itemRow r closedAt) ⟨[], 0, []⟩
  order.combos.zipIdx.foldlM (comboRows r closedAt) acc

/-! ### The sale -/

/-- All that one sale writes. -/
structure Sale where
  head : SaleHead
  lines : SaleLines
  kot : Cloud.Kot
  payments : List Cloud.OrderPayment
  cash : Option Cloud.CashMovement
  conflicts : List EdgeConflict

def driftConflicts (drift : ℕ) : List EdgeConflict :=
  if drift = 0 then []
  else [⟨.priceDrift, toString drift ++ " line(s) were billed at the device's cached price, " ++
    "which differs from the current menu"⟩]

/-- The status of the kitchen ticket of a sale. -/
def ticketStatus (order : EdgeOrderInput) : Cloud.KotStatus :=
  if (order.items.all (·.prepStatus = .ready)) ∧ order.combos.all (·.prepStatus = .ready) then
    .ready
  else .pending

/-- The cash of a sale in the open session of the outlet, if there is one. -/
def cashMovement (r : Reads) (order : EdgeOrderInput) (head : SaleHead) :
    Option Cloud.CashMovement :=
  let cash := (order.payments.filter (·.mode = .cash)).foldl (fun s p => s + toPaise p.amount) 0
  if order.status = .settled ∧ 0 < cash then
    r.cashSession.map fun session => ⟨session, fromPaise cash, r.orderId, head.row.billNumber⟩
  else none

/-- The two parts of a sale with its ticket and its payments. -/
def assembleSale (r : Reads) (device : EdgeDeviceContext) (order : EdgeOrderInput)
    (head : SaleHead) (lines : SaleLines) : Sale where
  head := head
  lines := lines
  kot := ⟨r.orderId, 0, device.tenantId, device.outletId, r.kotNumber, ticketStatus order,
    head.row.createdAt⟩
  payments := if order.status = .settled then
      order.payments.map fun p => ⟨r.orderId, p.mode, p.amount, head.closedAt⟩
    else []
  cash := cashMovement r order head
  conflicts := head.conflicts ++ driftConflicts lines.drift

end StelloKitchens
