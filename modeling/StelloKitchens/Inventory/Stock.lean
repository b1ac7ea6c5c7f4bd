import StelloKitchens.Lib.Checked
import StelloKitchens.Lib.Decimal
import StelloKitchens.Lib.KeyedTable
import StelloKitchens.Shared.Service

/-!
# Stock of raw materials

The stock of an outlet: what is on hand of each material and what a unit of it costs on average, and
the ledger of movements. A transaction locks the rows that it computes from, so it is one step; what
a request reads or writes outside of its transaction is a step of its own, and is kept meanwhile.

## Main definitions

* `RawMaterial`, `StockMovement` — the rows.
* `InventoryDb` — the tables, with what requests have begun, and what they have done.
* `RawMaterial.receive`, `RawMaterial.increment` — the two ways in which stock is written.
* `InventoryDb.applyReceipt`, `InventoryDb.move` — the same, with the movement.
-/

namespace StelloKitchens.Inventory

open Checked
open Service (ServiceError)

/-! ### Rows -/

inductive MaterialUnit
  | KG
  | G
  | L
  | ML
  | PCS
  deriving DecidableEq

def MaterialUnit.text : MaterialUnit → String
  | .KG => "KG"
  | .G => "G"
  | .L => "L"
  | .ML => "ML"
  | .PCS => "PCS"

structure RawMaterial where
  id : ℕ
  name : String
  unit : MaterialUnit
  stockQty : Decimal 12 3
  costPerUnit : Decimal 12 4
  /-- `deletedAt` is set. -/
  deleted : Bool
  deriving DecidableEq

inductive MovementType
  | receipt
  | consumption
  | wastage
  | adjustment
  | productionIn
  | productionOut
  | transferIn
  | transferOut
  deriving DecidableEq

/-- `refType` and `refId` of a movement. -/
inductive MovementRef
  | none
  | kot
  | grn (id : ℕ)
  | production (rawMaterialId : ℕ)
  | indent
  | stocktake (countId : ℕ)
  deriving DecidableEq

structure StockMovement where
  rawMaterialId : ℕ
  type : MovementType
  /-- What came in, negative for what went out. -/
  quantity : Decimal 12 3
  unitCost : Option (Decimal 12 4)
  ref : MovementRef
  deriving DecidableEq

/-- The category that stocktakes go by. -/
structure MaterialPlanning where
  rawMaterialId : ℕ
  category : Option String
  deriving DecidableEq

inductive PoStatus
  | DRAFT
  | APPROVED
  | SENT
  | PARTIALLY_RECEIVED
  | RECEIVED
  | CLOSED
  | CANCELLED
  deriving DecidableEq

structure PurchaseOrderLine where
  id : ℕ
  rawMaterialId : ℕ
  materialName : String
  unit : MaterialUnit
  unitFactor : Decimal 12 6
  orderedQty : Decimal 12 3
  receivedQty : Decimal 12 3
  rate : Decimal 12 4
  deriving DecidableEq

structure PurchaseOrder where
  id : ℕ
  poNumber : String
  status : PoStatus
  lines : List PurchaseOrderLine
  deriving DecidableEq

/-- Goods may be received against the order, now or later. -/
def PurchaseOrder.isLive (po : PurchaseOrder) : Bool :=
  po.status ∈ [.DRAFT, .APPROVED, .SENT, .PARTIALLY_RECEIVED]

structure GoodsReceiptLine where
  goodsReceiptId : ℕ
  purchaseOrderLineId : ℕ
  rawMaterialId : ℕ
  quantity : Decimal 12 3
  rate : Decimal 12 4
  stockQty : Decimal 12 3
  unitCost : Decimal 12 4
  deriving DecidableEq

inductive CountScope
  | FULL
  | CATEGORY
  deriving DecidableEq

inductive CountStatus
  | COUNTING
  | SUBMITTED
  | POSTED
  | CANCELLED
  deriving DecidableEq

structure StockCountLine where
  rawMaterialId : ℕ
  materialName : String
  unit : MaterialUnit
  /-- Frozen at the start, as is the cost. -/
  expectedQty : Decimal 12 3
  unitCost : Decimal 12 4
  countedQty : Option (Decimal 12 3)
  varianceQty : Option (Decimal 12 3)
  /-- How many movements the ledger had at the freeze. -/
  since : ℕ
  deriving DecidableEq

structure StockCount where
  id : ℕ
  countNumber : String
  scope : CountScope
  category : Option String
  status : CountStatus
  lines : List StockCountLine
  deriving DecidableEq

/-- A count that is being taken: `OPEN`. -/
def StockCount.isOpen (c : StockCount) : Bool := c.status = .COUNTING ∨ c.status = .SUBMITTED

/-! ### What requests have begun and done -/

/-- What a batch takes of one material, at the cost that was read. -/
structure Need where
  rawMaterialId : ℕ
  need : Binary64
  costPerUnit : Decimal 12 4
  deriving DecidableEq

/-- A batch that is about to be stored, with what was read of the material it makes. -/
structure Batch where
  rawMaterialId : ℕ
  stockQty : Decimal 12 3
  costPerUnit : Decimal 12 4
  needs : List Need
  quantity : Binary64
  deriving DecidableEq

/-- What a request has left to write. -/
inductive Unfinished
  /-- The opening balance of a new material. -/
  | opening (rawMaterialId : ℕ) (quantity unitCost : Binary64)
  | batch (b : Batch)
  /-- A purchase order whose lines are resolved. -/
  | order (lines : List PurchaseOrderLine)
  /-- Other lines for a purchase order. -/
  | orderLines (id : ℕ) (lines : List PurchaseOrderLine)
  deriving DecidableEq

/-- The lines that are about to be stored. -/
def Unfinished.lines : Unfinished → List PurchaseOrderLine
  | .order lines => lines
  | .orderLines _ lines => lines
  | _ => []

/-- What a receipt did to a material. -/
structure Receipt where
  before : RawMaterial
  quantity : Binary64
  unitCost : Binary64
  after : RawMaterial
  deriving DecidableEq

/-- What an edit did to a material. -/
structure Edit where
  before : RawMaterial
  after : RawMaterial
  /-- There was a line for it in an order that goods may still be received against. -/
  ordered : Bool
  deriving DecidableEq

/-- A receipt for a line of a purchase order. -/
structure Delivery where
  line : PurchaseOrderLine
  quantity : Binary64
  rate : Binary64
  receipt : Receipt
  deriving DecidableEq

/-- A material as a count was posted that had counted it. -/
structure Posting where
  countId : ℕ
  rawMaterialId : ℕ
  countedQty : Decimal 12 3
  stockQty : Decimal 12 3
  /-- What the ledger has moved since the freeze, in thousandths, but for postings. -/
  moved : ℤ
  deriving DecidableEq

/-- The tables of the outlet. -/
structure InventoryDb where
  /-- The next unused id. -/
  next : ℕ
  materials : KeyedTable RawMaterial.id
  planning : KeyedTable MaterialPlanning.rawMaterialId
  movements : List StockMovement
  purchaseOrders : KeyedTable PurchaseOrder.id
  goodsReceipts : List GoodsReceiptLine
  counts : KeyedTable StockCount.id
  unfinished : List Unfinished
  receipts : List Receipt
  batches : List Batch
  edits : List Edit
  deliveries : List Delivery
  /-- The counts that were posted, at each posting. -/
  posted : List ℕ
  postings : List Posting
  deriving DecidableEq

/-- An outlet that has no materials yet. -/
def InventoryDb.empty : InventoryDb where
  next := 0
  materials := .empty
  planning := .empty
  movements := []
  purchaseOrders := .empty
  goodsReceipts := []
  counts := .empty
  unfinished := []
  receipts := []
  batches := []
  edits := []
  deliveries := []
  posted := []
  postings := []

/-- What may go wrong. -/
abbrev Result (α : Type) := Except ServiceError α

/-! ### Stock -/

/-- `D`: a column as a number. -/
abbrev D {s : ℕ} (d : Decimal 12 s) : Binary64 := d.toNumber

def round3 (n : Binary64) : Binary64 := (n * 1000).nearestInt / 1000
def round4 (n : Binary64) : Binary64 := (n * 10000).nearestInt / 10000

/-- The weighted average of the value on hand and the value received. -/
def blend (oldQty oldCost quantity unitCost : Binary64) : Binary64 :=
  if 0 < oldQty + quantity then
    (oldQty * oldCost + quantity * unitCost) / (oldQty + quantity)
  else unitCost

namespace RawMaterial

/-- More stock at some cost, if the columns hold it. -/
def receive (m : RawMaterial) (quantity unitCost : Binary64) : Option RawMaterial := do
  let stockQty ← Decimal.ofNumber (D m.stockQty + quantity)
  let costPerUnit ← Decimal.ofNumber (blend (D m.stockQty) (D m.costPerUnit) quantity unitCost)
  return { m with
    stockQty := stockQty
    costPerUnit := costPerUnit }

/-- `increment`, and `decrement` by the negative. -/
def increment (m : RawMaterial) (quantity : Binary64) : Option RawMaterial := do
  let stockQty ← Decimal.ofScaled
    (Decimal.roundHalfAway (m.stockQty.scaled + quantity.shortest * 10 ^ 3))
  return { m with stockQty := stockQty }

end RawMaterial

namespace InventoryDb

variable (db : InventoryDb)

/-- A material that is not deleted. -/
def requireMaterial (id : ℕ) : Result RawMaterial :=
  orThrow ((db.materials.find? id).filter fun m => !m.deleted) (.notFound "Material not found")

/-- The row of a material gets other columns. -/
def setMaterial (m : RawMaterial) : InventoryDb := { db with materials := db.materials.put m }

/-- The cost of a movement, if it has one. -/
def storeCost : Option Binary64 → Result (Option (Decimal 12 4))
  | none => pure none
  | some c => some <$> orThrow (Decimal.ofNumber c) .database

/-- A movement is recorded. -/
def record (id : ℕ) (type : MovementType) (quantity : Binary64) (unitCost : Option Binary64)
    (ref : MovementRef) : Result InventoryDb := do
  let quantity ← orThrow (Decimal.ofNumber quantity) .database
  let unitCost ← storeCost unitCost
  return { db with movements := db.movements ++ [⟨id, type, quantity, unitCost, ref⟩] }

/-- Stock comes or goes, with its movement. -/
def move (id : ℕ) (type : MovementType) (quantity : Binary64) (unitCost : Option Binary64)
    (ref : MovementRef) : Result InventoryDb := do
  let m ← orThrow (db.materials.find? id) .database
  let m' ← orThrow (m.increment quantity) .database
  (db.setMaterial m').record id type quantity unitCost ref

/-- The locked receiving path, for receipts of every kind. -/
def applyReceipt (id : ℕ) (quantity unitCost : Binary64) (ref : MovementRef) :
    Result (InventoryDb × Receipt) := do
  let m ← db.requireMaterial id
  let m' ← orThrow (m.receive quantity unitCost) .database
  let db ← (db.setMaterial m').record id .receipt quantity (some unitCost) ref
  let receipt : Receipt := ⟨m, quantity, unitCost, m'⟩
  return ({ db with receipts := db.receipts ++ [receipt] }, receipt)

/-! ### Materials -/

end InventoryDb

structure CreateMaterialInput where
  name : String
  unit : MaterialUnit
  stockQty : Binary64
  costPerUnit : Binary64
  stockQty_nonneg : 0 ≤ stockQty
  costPerUnit_nonneg : 0 ≤ costPerUnit

structure UpdateMaterialInput where
  name : Option String
  unit : Option MaterialUnit

structure ReceiveStockInput where
  quantity : Binary64
  unitCost : Binary64
  quantity_pos : 0 < quantity
  unitCost_nonneg : 0 ≤ unitCost

/-- Something is taken from stock. -/
structure WastageInput where
  quantity : Binary64
  quantity_pos : 0 < quantity

/-- An ingredient of a batch; the quantity is for one unit. -/
structure PrepIngredient where
  inputMaterialId : ℕ
  quantity : Decimal 12 3
  quantity_nonneg : 0 ≤ quantity.scaled

/-- What a central kitchen was asked for, at what its material cost then. -/
structure IndentItem where
  rawMaterialId : ℕ
  materialName : String
  unit : MaterialUnit
  quantity : Decimal 12 3
  unitCost : Decimal 12 4
  unitCost_nonneg : 0 ≤ unitCost.scaled

namespace InventoryDb

variable (db : InventoryDb)

/-- The row of the material; its opening balance is recorded after that. -/
def createMaterial (input : CreateMaterialInput) : Result InventoryDb := do
  let stockQty ← orThrow (Decimal.ofNumber input.stockQty) .database
  let costPerUnit ← orThrow (Decimal.ofNumber input.costPerUnit) .database
  return { db.setMaterial ⟨db.next, input.name, input.unit, stockQty, costPerUnit, false⟩ with
    next := db.next + 1
    unfinished := if 0 < input.stockQty then
      db.unfinished ++ [.opening db.next input.stockQty input.costPerUnit] else db.unfinished }

def recordOpening (id : ℕ) (quantity unitCost : Binary64) : Result InventoryDb :=
  db.record id .adjustment quantity (some unitCost) .none

/-- An order, or what is about to be one, has a line for the material. -/
def ordered (id : ℕ) : Bool :=
  (db.purchaseOrders.rows.any fun po => po.isLive ∧ ∃ l ∈ po.lines, l.rawMaterialId = id) ∨
    db.unfinished.any fun u => u.lines.any fun l => l.rawMaterialId = id

def updateMaterial (id : ℕ) (input : UpdateMaterialInput) : Result InventoryDb := do
  let m ← db.requireMaterial id
  let m' := { m with
    name := input.name.getD m.name
    unit := input.unit.getD m.unit }
  return { db.setMaterial m' with edits := db.edits ++ [⟨m, m', db.ordered id⟩] }

/-- `usedBy` is the number of recipes that have the material. -/
def deleteMaterial (id usedBy : ℕ) : Result InventoryDb := do
  let m ← db.requireMaterial id
  ensure (usedBy = 0)
    (.badRequest s!"Material is used in {usedBy} recipe(s); remove it there first")
  return db.setMaterial { m with deleted := true }

def receiveStock (id : ℕ) (input : ReceiveStockInput) : Result InventoryDb :=
  Prod.fst <$> db.applyReceipt id input.quantity input.unitCost .none

def recordWastage (id : ℕ) (input : WastageInput) : Result InventoryDb := do
  let m ← db.requireMaterial id
  db.move id .wastage (-input.quantity) (some (D m.costPerUnit)) .none

/-! ### Sales and transfers -/

/-- The recipes of what is punched are taken from stock. -/
def punchItems (consumption : List (ℕ × Binary64)) : Result InventoryDb :=
  consumption.foldlM (fun db c => db.move c.1 .consumption (-c.2) none .kot) db

/-- What a device sold is taken from the materials that there are. -/
def depleteSynced (consumption : List (ℕ × Binary64)) : Result InventoryDb :=
  consumption.foldlM (fun db c =>
    if (db.materials.find? c.1).isSome then db.move c.1 .consumption (-c.2) none .kot
    else pure db) db

/-- A central kitchen sends what was asked for. -/
def dispatch (items : List IndentItem) : Result InventoryDb :=
  items.foldlM (fun db item =>
    db.move item.rawMaterialId .transferOut (-D item.quantity) (some (D item.unitCost)) .indent) db

/-- The material of a name, or a new one. -/
def satelliteMaterial (item : IndentItem) : InventoryDb × ℕ :=
  match db.materials.rows.find? fun m => m.name = item.materialName ∧ ¬m.deleted with
  | some m => (db, m.id)
  | none => ({ db.setMaterial ⟨db.next, item.materialName, item.unit, 0, item.unitCost, false⟩ with
      next := db.next + 1 }, db.next)

/-- What a central kitchen has sent arrives. -/
def receiveIndent (items : List IndentItem) : Result InventoryDb :=
  items.foldlM (fun db item =>
    (db.satelliteMaterial item).1.move (db.satelliteMaterial item).2 .transferIn (D item.quantity)
      (some (D item.unitCost)) .indent) db

/-! ### Batches -/

/-- What a batch takes of an ingredient, if there is enough. -/
def needOf (quantity : Binary64) (r : PrepIngredient) : Result Need := do
  let input ← orThrow (db.materials.find? r.inputMaterialId) .database
  let need := D r.quantity * quantity
  ensure (¬D input.stockQty < need) (.badRequest ("Not enough " ++ input.name ++ ": need " ++
    jsNumber need ++ " " ++ input.unit.text ++ ", have " ++ jsNumber (D input.stockQty)))
  return ⟨input.id, need, input.costPerUnit⟩

/-- A batch reads the recipe and the stock before its transaction. -/
def produceBatch (id : ℕ) (prepRecipe : List PrepIngredient) (quantity : Binary64) :
    Result InventoryDb := do
  let m ← db.requireMaterial id
  ensure (prepRecipe ≠ []) (.badRequest "This material has no prep recipe")
  let needs ← prepRecipe.mapM (db.needOf quantity)
  return { db with
    unfinished := db.unfinished ++ [.batch ⟨id, m.stockQty, m.costPerUnit, needs, quantity⟩] }

end InventoryDb

/-- What the ingredients of a batch cost. -/
def Batch.batchCost (b : Batch) : Binary64 :=
  b.needs.foldl (fun s n => s + n.need * D n.costPerUnit) 0

def Batch.newQty (b : Batch) : Binary64 := D b.stockQty + b.quantity

def Batch.blendedCost (b : Batch) : Binary64 :=
  if 0 < b.newQty then (D b.stockQty * D b.costPerUnit + b.batchCost) / b.newQty
  else D b.costPerUnit

namespace InventoryDb

variable (db : InventoryDb)

/-- The ingredients go out; stock and cost of what is made are those that were read, and the batch. -/
def storeBatch (b : Batch) : Result InventoryDb := do
  let db ← b.needs.foldlM (fun db n =>
    db.move n.rawMaterialId .productionOut (-n.need) (some (D n.costPerUnit))
      (.production b.rawMaterialId)) db
  let m ← orThrow (db.materials.find? b.rawMaterialId) .database
  let stockQty ← orThrow (Decimal.ofNumber b.newQty) .database
  let costPerUnit ← orThrow (Decimal.ofNumber b.blendedCost) .database
  let db ← (db.setMaterial { m with
    stockQty := stockQty
    costPerUnit := costPerUnit }).record b.rawMaterialId .productionIn b.quantity
      (some (b.batchCost / b.quantity)) .none
  return { db with batches := db.batches ++ [b] }

end InventoryDb

end StelloKitchens.Inventory
