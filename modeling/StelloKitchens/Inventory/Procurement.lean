import StelloKitchens.Inventory.Stock
import StelloKitchens.Lib.Machine

/-!
# Purchase orders and stocktakes

Purchase orders freeze, line by line, how many units of stock are in a unit of purchase; goods are
received against them in parts. Stocktakes freeze the stock of their materials when they are opened,
and when they are posted move the stock by what was counted more or less.

A stocktake is opened under a lock of its own, and nobody else sees it or depends on it before: it
is taken to be there from the moment at which it reads the stock.

## Main definitions

* `unitFactor`, `InventoryDb.resolveLines`, `InventoryDb.receiveOrder` — ordering and receiving.
* `InventoryDb.savePlanning` — the categories of the materials.
* `InventoryDb.createCount`, `InventoryDb.enterCounts`, `InventoryDb.postCount` — stocktakes.
* `inventory` — all of it, in any order.
-/

namespace StelloKitchens.Inventory

open Checked
open Service (ServiceError)

/-- `nextDocNumber`, under its lock: one more than there are. -/
def docNumber (kind : String) (count : ℕ) : String :=
  kind ++ "-" ++ padStart 5 (toString (count + 1))

/-! ### Purchase orders -/

/-- How many units of the second kind are in one of the first. -/
def unitFactor : MaterialUnit → MaterialUnit → Option Binary64
  | .KG, .G => some 1000
  | .G, .KG => some (.ofRat (1 / 1000))
  | .L, .ML => some 1000
  | .ML, .L => some (.ofRat (1 / 1000))
  | u, v => if u = v then some 1 else none

inductive PoAction
  | approve
  | send
  | cancel
  | close
  deriving DecidableEq

def PoAction.text : PoAction → String
  | .approve => "approve"
  | .send => "send"
  | .cancel => "cancel"
  | .close => "close"

def PoStatus.text : PoStatus → String
  | .DRAFT => "DRAFT"
  | .APPROVED => "APPROVED"
  | .SENT => "SENT"
  | .PARTIALLY_RECEIVED => "PARTIALLY_RECEIVED"
  | .RECEIVED => "RECEIVED"
  | .CLOSED => "CLOSED"
  | .CANCELLED => "CANCELLED"

/-- The name of a status, as messages have it. -/
def PoStatus.lower : PoStatus → String
  | .DRAFT => "draft"
  | .APPROVED => "approved"
  | .SENT => "sent"
  | .PARTIALLY_RECEIVED => "partially received"
  | .RECEIVED => "received"
  | .CLOSED => "closed"
  | .CANCELLED => "cancelled"

def nextPoStatus (status : PoStatus) : PoAction → Option PoStatus
  | .approve => if status = .DRAFT then some .APPROVED else none
  | .send => if status = .APPROVED then some .SENT else none
  | .cancel => if status ∈ [.DRAFT, .APPROVED, .SENT] then some .CANCELLED else none
  | .close => if status ∈ [.PARTIALLY_RECEIVED, .RECEIVED] then some .CLOSED else none

def canReceivePo (status : PoStatus) : Bool :=
  status ∈ [.APPROVED, .SENT, .PARTIALLY_RECEIVED]

def canEditPo (status : PoStatus) : Bool := status = .DRAFT

def statusAfterReceipt (lines : List (Binary64 × Binary64)) : PoStatus :=
  if lines.all fun l => l.1 ≤ l.2 + .ofRat (1 / 10 ^ 9) then .RECEIVED else .PARTIALLY_RECEIVED

def maxReceivable (orderedQty receivedQty tolerancePct : Binary64) : Binary64 :=
  max 0 (round3 (orderedQty * (1 + tolerancePct / 100) - receivedQty))

structure PoLineInput where
  rawMaterialId : ℕ
  quantity : Binary64
  unit : Option MaterialUnit
  rate : Binary64
  quantity_pos : 0 < quantity
  rate_nonneg : 0 ≤ rate

structure ReceiveLineInput where
  poLineId : ℕ
  quantity : Binary64
  /-- By default that of the order. -/
  rate : Option Binary64
  quantity_nonneg : 0 ≤ quantity
  rate_nonneg : ∀ r ∈ rate, 0 ≤ r

namespace InventoryDb

variable (db : InventoryDb)

/-- A line of a purchase order, by the unit that its material has now. -/
def resolveLine (l : PoLineInput) : Result PurchaseOrderLine := do
  let m ← orThrow ((db.materials.find? l.rawMaterialId).filter fun m => !m.deleted)
    (.badRequest "Unknown material on PO line")
  let unit := l.unit.getD m.unit
  let factor ← orThrow (unitFactor unit m.unit) (.badRequest (m.name ++ " is stocked in " ++
    m.unit.text ++ "; it can't be bought in " ++ unit.text))
  let unitFactor ← orThrow (Decimal.ofNumber factor) .database
  let orderedQty ← orThrow (Decimal.ofNumber l.quantity) .database
  let rate ← orThrow (Decimal.ofNumber l.rate) .database
  return ⟨0, m.id, m.name, unit, unitFactor, orderedQty, 0, rate⟩

/-- The lines are resolved before the transaction. -/
def resolveLines (input : List PoLineInput) : Result (List PurchaseOrderLine) :=
  input.mapM db.resolveLine

/-- Lines as they are stored, with ids of their own. -/
def numbered (lines : List PurchaseOrderLine) : List PurchaseOrderLine :=
  lines.mapIdx fun i l => { l with id := db.next + i }

def createOrder (input : List PoLineInput) : Result InventoryDb := do
  let lines ← db.resolveLines input
  return { db with unfinished := db.unfinished ++ [.order lines] }

def updateOrder (id : ℕ) (input : List PoLineInput) : Result InventoryDb := do
  let lines ← db.resolveLines input
  return { db with unfinished := db.unfinished ++ [.orderLines id lines] }

def insertOrder (lines : List PurchaseOrderLine) : Result InventoryDb :=
  return { db with
    next := db.next + lines.length + 1
    purchaseOrders := db.purchaseOrders.put ⟨db.next + lines.length,
      docNumber "PO" db.purchaseOrders.rows.length, .DRAFT, db.numbered lines⟩ }

def requireOrder (id : ℕ) : Result PurchaseOrder :=
  orThrow (db.purchaseOrders.find? id) (.notFound "Purchase order not found")

def replaceLines (id : ℕ) (lines : List PurchaseOrderLine) : Result InventoryDb := do
  let po ← db.requireOrder id
  ensure (canEditPo po.status = true) (.badRequest ("A " ++ po.status.text ++ " PO can't be edited"))
  return { db with
    next := db.next + lines.length
    purchaseOrders := db.purchaseOrders.put { po with lines := db.numbered lines } }

/-- An order gets another status. -/
def setOrderStatus (id : ℕ) (status : PoStatus) : InventoryDb :=
  { db with
    purchaseOrders := db.purchaseOrders.modify (fun po => po.id = id)
      (fun po => { po with status := status }) fun _ => rfl }

def actOnOrder (id : ℕ) (action : PoAction) : Result InventoryDb := do
  let po ← db.requireOrder id
  let status ← orThrow (nextPoStatus po.status action)
    (.badRequest ("Can't " ++ action.text ++ " a PO that is " ++ po.status.lower))
  return db.setOrderStatus id status

/-! ### Goods received -/

end InventoryDb

/-- What is received of a line. -/
structure ReceivedLine where
  line : PurchaseOrderLine
  quantity : Binary64
  rate : Binary64

/-- The lines that something is received of, each once, and no more than is tolerated. -/
def receivedLines (po : PurchaseOrder) (overReceiptPct : Binary64) (input : List ReceiveLineInput) :
    Result (List ReceivedLine) :=
  (input.filter fun l => 0 < l.quantity).foldlM (fun receipts l => do
    let line ← orThrow (po.lines.find? fun line => line.id = l.poLineId)
      (.badRequest "Receipt line does not belong to this PO")
    ensure (∀ r ∈ receipts, r.line.id ≠ l.poLineId) (.badRequest "Duplicate receipt line")
    let most := maxReceivable (D line.orderedQty) (D line.receivedQty) overReceiptPct
    ensure (l.quantity ≤ most + .ofRat (1 / 10 ^ 9)) (.badRequest ("Over-receipt on " ++
      line.materialName ++ ": at most " ++ jsNumber most ++ " " ++ line.unit.text ++
      " can still be received" ++ if overReceiptPct = 0 then "" else
        " (" ++ jsNumber overReceiptPct ++ "% tolerance)"))
    return receipts ++ [⟨line, l.quantity, l.rate.getD (D line.rate)⟩]) []

namespace ReceivedLine

variable (r : ReceivedLine)

/-- `D(unitFactor) || 1`. -/
def factor : Binary64 := if D r.line.unitFactor = 0 then 1 else D r.line.unitFactor

/-- In units of the stock, as they were when the line was written. -/
def stockQty : Binary64 := round3 (r.quantity * r.factor)

def unitCost : Binary64 := round4 (r.rate / r.factor)

end ReceivedLine

namespace InventoryDb

variable (db : InventoryDb)

/-- A line of a purchase order has received more. -/
def addReceived (id lineId : ℕ) (receivedQty : Decimal 12 3) : InventoryDb :=
  { db with
    purchaseOrders := db.purchaseOrders.modify (fun po => po.id = id)
      (fun po => { po with lines := po.lines.map fun l =>
        if l.id = lineId then { l with receivedQty := receivedQty } else l }) fun _ => rfl }

def receiveLine (poId grnId : ℕ) (r : ReceivedLine) : Result InventoryDb := do
  let (db, receipt) ← db.applyReceipt r.line.rawMaterialId r.stockQty r.unitCost (.grn grnId)
  let quantity ← orThrow (Decimal.ofNumber r.quantity) .database
  let rate ← orThrow (Decimal.ofNumber r.rate) .database
  let stockQty ← orThrow (Decimal.ofNumber r.stockQty) .database
  let unitCost ← orThrow (Decimal.ofNumber r.unitCost) .database
  let receivedQty ← orThrow (Decimal.ofScaled
    (Decimal.roundHalfAway (r.line.receivedQty.scaled + r.quantity.shortest * 10 ^ 3))) .database
  return { db.addReceived poId r.line.id receivedQty with
    goodsReceipts := db.goodsReceipts ++
      [⟨grnId, r.line.id, r.line.rawMaterialId, quantity, rate, stockQty, unitCost⟩]
    deliveries := db.deliveries ++ [⟨r.line, r.quantity, r.rate, receipt⟩] }

/-- Goods are received against an order, within a tolerance over what was ordered. -/
def receiveOrder (id : ℕ) (overReceiptPct : Binary64) (input : List ReceiveLineInput) :
    Result InventoryDb := do
  let po ← db.requireOrder id
  ensure (canReceivePo po.status = true)
    (.badRequest ("Can't receive against a " ++ po.status.lower ++ " PO"))
  let receipts ← receivedLines po overReceiptPct input
  ensure (receipts ≠ []) (.badRequest "Enter a received quantity on at least one line")
  let sorted := receipts.mergeSort fun r s => r.line.rawMaterialId ≤ s.line.rawMaterialId
  let grnId := db.next
  let db ← sorted.foldlM (fun db r => db.receiveLine id grnId r) { db with next := db.next + 1 }
  let after := po.lines.map fun l => (D l.orderedQty, D l.receivedQty +
    ((receipts.find? fun r => r.line.id = l.id).map (·.quantity)).getD 0)
  return db.setOrderStatus id (statusAfterReceipt after)

end InventoryDb

/-! ### Categories -/

structure PlanningRow where
  rawMaterialId : ℕ
  /-- Absent, or to be set, possibly to nothing. -/
  category : Option (Option String)

/-- The category that a row of planning sets. -/
def PlanningRow.newCategory (r : PlanningRow) : Option (Option String) :=
  r.category.map fun c => truthy (c.map trim)

namespace InventoryDb

variable (db : InventoryDb)

def categoryOf (id : ℕ) : Option String := (db.planning.find? id).bind (·.category)

/-- A row of planning is updated, or created. -/
def planRow (r : PlanningRow) : InventoryDb :=
  { db with
    planning := db.planning.put
      ⟨r.rawMaterialId, r.newCategory.getD (db.categoryOf r.rawMaterialId)⟩ }

def savePlanning (rows : List PlanningRow) : Result InventoryDb := do
  ensure (∀ r ∈ rows, ((db.materials.find? r.rawMaterialId).filter fun m => !m.deleted).isSome)
    (.badRequest "Unknown material")
  return rows.foldl planRow db

/-! ### Stocktakes -/

def requireCount (id : ℕ) : Result StockCount :=
  orThrow (db.counts.find? id) (.notFound "Stock count not found")

end InventoryDb

structure CreateCountInput where
  scope : CountScope
  category : Option String

structure CountEntry where
  /-- The material of the line. -/
  rawMaterialId : ℕ
  countedQty : Option Binary64
  countedQty_nonneg : ∀ q ∈ countedQty, 0 ≤ q

/-- The name of a status, as messages have it. -/
def CountStatus.lower : CountStatus → String
  | .COUNTING => "counting"
  | .SUBMITTED => "submitted"
  | .POSTED => "posted"
  | .CANCELLED => "cancelled"

/-- What was counted more than was expected, or less. -/
def StockCountLine.variance (l : StockCountLine) (countedQty : Binary64) : Binary64 :=
  round3 (countedQty - D l.expectedQty)

namespace InventoryDb

variable (db : InventoryDb)

/-- The category that a count is restricted to. -/
def countCategory (input : CreateCountInput) : Option String :=
  if input.scope = .CATEGORY then truthy (input.category.map trim) else none

/-- A count that overlaps one of this category, or of everything. -/
def clash (category : Option String) : Option StockCount :=
  db.counts.rows.find? fun c => c.isOpen ∧
    (category = none ∨ c.scope = .FULL ∨ c.category = category)

/-- The materials that a count is of. -/
def inCount (category : Option String) : List RawMaterial :=
  db.materials.rows.filter fun m => ¬m.deleted ∧
    (category = none ∨ db.categoryOf m.id = category)

/-- The stock of a material as it is now. -/
def freeze (m : RawMaterial) : StockCountLine :=
  ⟨m.id, m.name, m.unit, m.stockQty, m.costPerUnit, none, none, db.movements.length⟩

def createCount (input : CreateCountInput) : Result InventoryDb := do
  let category := countCategory input
  ensure (input.scope = .CATEGORY → category ≠ none) (.badRequest "Pick a category to count")
  match db.clash category with
  | some c => throw (.badRequest (c.countNumber ++ " is still open for an overlapping scope"))
  | none =>
    ensure (db.inCount category ≠ []) (.badRequest "No materials in this scope")
    return { db with
      next := db.next + 1
      counts := db.counts.put ⟨db.next, docNumber "SC" db.counts.rows.length, input.scope, category,
        .COUNTING, (db.inCount category).map db.freeze⟩ }

/-- A count gets another status. -/
def setStatus (id : ℕ) (status : CountStatus) : InventoryDb :=
  { db with
    counts := db.counts.modify (fun c => c.id = id) (fun c => { c with status := status })
      fun _ => rfl }

/-- A line of a count gets what was counted, and the variance. -/
def setLine (id rawMaterialId : ℕ) (countedQty varianceQty : Option (Decimal 12 3)) : InventoryDb :=
  { db with
    counts := db.counts.modify (fun c => c.id = id)
      (fun c => { c with lines := c.lines.map fun l => if l.rawMaterialId = rawMaterialId then
        { l with
          countedQty := countedQty
          varianceQty := varianceQty } else l }) fun _ => rfl }

def enterCount (c : StockCount) (e : CountEntry) : Result InventoryDb := do
  let line ← orThrow (c.lines.find? fun l => l.rawMaterialId = e.rawMaterialId)
    (.badRequest "Line does not belong to this count")
  match e.countedQty with
  | none => return db.setLine c.id e.rawMaterialId none none
  | some q => do
    let countedQty ← orThrow (Decimal.ofNumber q) .database
    let varianceQty ← orThrow (Decimal.ofNumber (line.variance q)) .database
    return db.setLine c.id e.rawMaterialId (some countedQty) (some varianceQty)

/-- A count that is still being taken. -/
def openCount (id : ℕ) : Result StockCount := do
  let c ← db.requireCount id
  ensure (c.isOpen = true) (.badRequest ("Count is " ++ c.status.lower))
  return c

def enterCounts (id : ℕ) (entries : List CountEntry) : Result InventoryDb := do
  let c ← db.openCount id
  entries.foldlM (fun db e => db.enterCount c e) db

def submitCount (id : ℕ) : Result InventoryDb := do
  let c ← db.requireCount id
  ensure (c.status = .COUNTING) (.badRequest ("Count is " ++ c.status.lower))
  ensure (∃ l ∈ c.lines, l.countedQty ≠ none)
    (.badRequest "Count at least one material before submitting")
  return db.setStatus id .SUBMITTED

def cancelCount (id : ℕ) : Result InventoryDb := do
  let _ ← db.openCount id
  return db.setStatus id .CANCELLED

/-- The stock of a material moves by its variance. -/
def postLine (id : ℕ) (line : StockCountLine) (countedQty : Decimal 12 3) : Result InventoryDb := do
  let variance := line.variance (D countedQty)
  if variance = 0 then return db.setLine id line.rawMaterialId (some countedQty) (some 0)
  else
    match db.materials.find? line.rawMaterialId with
    | none => return db
    | some m => do
      let db ← db.move line.rawMaterialId .adjustment variance (some (D m.costPerUnit))
        (.stocktake id)
      let varianceQty ← orThrow (Decimal.ofNumber variance) .database
      return db.setLine id line.rawMaterialId (some countedQty) (some varianceQty)

end InventoryDb

/-- The lines of a count that were counted, in the order of their materials. -/
def StockCount.counted (c : StockCount) : List (StockCountLine × Decimal 12 3) :=
  (c.lines.filterMap fun l => l.countedQty.map fun q => (l, q)).mergeSort fun l m =>
    l.1.rawMaterialId ≤ m.1.rawMaterialId

/-- A movement that is not that of a posting. -/
def StockMovement.isOwn (m : StockMovement) : Bool :=
  match m.ref with
  | .stocktake _ => false
  | _ => true

namespace InventoryDb

variable (db : InventoryDb)

/-- What the ledger has moved of a material since it had so many movements, but for postings. -/
def movedSince (since id : ℕ) : ℤ :=
  (((db.movements.drop since).filter fun m => m.rawMaterialId = id ∧ m.isOwn).map
    (·.quantity.scaled)).sum

/-- The material of a line, as it is now. -/
def posting (id : ℕ) (l : StockCountLine × Decimal 12 3) : Option Posting :=
  (db.materials.find? l.1.rawMaterialId).map fun m =>
    ⟨id, l.1.rawMaterialId, l.2, m.stockQty, db.movedSince l.1.since l.1.rawMaterialId⟩

def postCount (id : ℕ) : Result InventoryDb := do
  let c ← db.openCount id
  ensure (c.counted ≠ []) (.badRequest "Nothing has been counted")
  let db ← c.counted.foldlM (fun db l => db.postLine id l.1 l.2) db
  return { db.setStatus id .POSTED with
    posted := db.posted ++ [id]
    postings := db.postings ++ c.counted.filterMap (db.posting id) }

end InventoryDb

/-! ### In any order -/

inductive InventoryAction
  | createMaterial (input : CreateMaterialInput)
  | updateMaterial (id : ℕ) (input : UpdateMaterialInput)
  | deleteMaterial (id usedBy : ℕ)
  | receiveStock (id : ℕ) (input : ReceiveStockInput)
  | recordWastage (id : ℕ) (input : WastageInput)
  | punchItems (consumption : List (ℕ × Binary64))
  | depleteSynced (consumption : List (ℕ × Binary64))
  | dispatch (items : List IndentItem)
  | receiveIndent (items : List IndentItem)
  | produceBatch (id : ℕ) (prepRecipe : List PrepIngredient) (quantity : Binary64)
      (hquantity : 0 < quantity)
  | createOrder (input : List PoLineInput)
  | updateOrder (id : ℕ) (input : List PoLineInput)
  | actOnOrder (id : ℕ) (action : PoAction)
  | receiveOrder (id : ℕ) (overReceiptPct : Binary64) (input : List ReceiveLineInput)
  | savePlanning (rows : List PlanningRow)
  | createCount (input : CreateCountInput)
  | enterCounts (id : ℕ) (entries : List CountEntry)
  | submitCount (id : ℕ)
  | cancelCount (id : ℕ)
  | postCount (id : ℕ)
  /-- A request that has begun goes on, or fails. -/
  | resume (i : ℕ)
  | abandon (i : ℕ)

namespace InventoryDb

variable (db : InventoryDb)

/-- What a request has left to write is written. -/
def finish : Unfinished → Result InventoryDb
  | .opening id quantity unitCost => db.recordOpening id quantity unitCost
  | .batch b => db.storeBatch b
  | .order lines => db.insertOrder lines
  | .orderLines id lines => db.replaceLines id lines

/-- A request is over. -/
def drop (i : ℕ) : InventoryDb := { db with unfinished := db.unfinished.eraseIdx i }

def perform : InventoryAction → Result InventoryDb
  | .createMaterial input => db.createMaterial input
  | .updateMaterial id input => db.updateMaterial id input
  | .deleteMaterial id usedBy => db.deleteMaterial id usedBy
  | .receiveStock id input => db.receiveStock id input
  | .recordWastage id input => db.recordWastage id input
  | .punchItems consumption => db.punchItems consumption
  | .depleteSynced consumption => db.depleteSynced consumption
  | .dispatch items => db.dispatch items
  | .receiveIndent items => db.receiveIndent items
  | .produceBatch id prepRecipe quantity _ => db.produceBatch id prepRecipe quantity
  | .createOrder input => db.createOrder input
  | .updateOrder id input => db.updateOrder id input
  | .actOnOrder id action => db.actOnOrder id action
  | .receiveOrder id overReceiptPct input => db.receiveOrder id overReceiptPct input
  | .savePlanning rows => db.savePlanning rows
  | .createCount input => db.createCount input
  | .enterCounts id entries => db.enterCounts id entries
  | .submitCount id => db.submitCount id
  | .cancelCount id => db.cancelCount id
  | .postCount id => db.postCount id
  | .resume i => match db.unfinished[i]? with
    | none => pure db
    | some u => do
      let db ← db.finish u
      return db.drop i
  | .abandon i => pure (db.drop i)

/-- A request that fails changes nothing; if it had begun, it is over. -/
def step (a : InventoryAction) : InventoryDb :=
  match db.perform a, a with
  | .ok db', _ => db'
  | .error _, .resume i => db.drop i
  | .error _, _ => db

end InventoryDb

/-- The stock of an outlet, under all requests. -/
def inventory : Machine InventoryDb InventoryAction where
  init db := db = .empty
  step := InventoryDb.step

end StelloKitchens.Inventory
