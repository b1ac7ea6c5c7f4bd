import StelloKitchens.Billing.Orders
import StelloKitchens.Shared.Service

/-!
# Orders of aggregators

A delivery app sends its orders over and over until it is told that they have arrived. An order is
ingested in one transaction: its row is inserted first, under the unique key of platform and
external id, and then, if any of its items is on the outlet's menu, its bill is opened, its items
are sent to the kitchen, and what they take is taken from the stock. A delivery that finds the key
taken is answered with the row that is there.

## Main definitions

* `AggregatorOrder`, `ConnectorDb` — the rows, with the bills and the stock.
* `ingest`, `updateStatus` — the methods.
* `connector` — all of them side by side.
-/

namespace StelloKitchens.Connector

open Checked Tx Method Service
open Billing (BillingDb BillingError IngestResult Menu OrderItemInput RowId)

/-! ### Tables -/

inductive AggregatorPlatform
  | zomato
  | swiggy
  | ondc
  | urbanPiper
  deriving DecidableEq

inductive AggregatorStatus
  | received
  | accepted
  | preparing
  | ready
  | pickedUp
  | delivered
  | rejected
  | cancelled
  deriving DecidableEq

/-- The channel that carries the prices and the item ids of a platform. -/
def platformChannel : AggregatorPlatform → String
  | .zomato => "Zomato"
  | .swiggy => "Swiggy"
  | .ondc => "ONDC"
  | .urbanPiper => "UrbanPiper"

/-- An item of the menu, ordered a number of times. -/
structure MatchedItem where
  itemId : String
  quantity : ℕ
  quantity_pos : 0 < quantity
  deriving DecidableEq

structure AggregatorOrder where
  id : ℕ
  outletId : String
  platform : AggregatorPlatform
  externalOrderId : String
  orderId : Option RowId
  status : AggregatorStatus
  customerName : Option String
  customerPhoneMasked : Option String
  orderValue : Amount
  unmatchedItems : List String
  /-- What was found on the menu, which no statement reads. -/
  matched : List MatchedItem
  deriving DecidableEq

/-- The unique key of an order. -/
def AggregatorOrder.key (r : AggregatorOrder) : AggregatorPlatform × String :=
  (r.platform, r.externalOrderId)

structure RawMaterial where
  id : String
  stockQty : Decimal 12 3
  deriving DecidableEq

/-- The stock that a kitchen ticket took of one material. -/
structure StockMovement where
  rawMaterialId : String
  quantity : Decimal 12 3
  refId : RowId
  deriving DecidableEq

/-- What an order takes of one material, with the quantity of its stock movement. -/
structure Consumed where
  rawMaterialId : String
  quantity : Binary64
  moved : Decimal 12 3
  deriving DecidableEq

/-- An order that was ingested with items. -/
structure Ingested where
  platform : AggregatorPlatform
  externalOrderId : String
  orderId : RowId
  kotId : RowId
  consumption : List Consumed
  deriving DecidableEq

namespace Ingested

def key (e : Ingested) : AggregatorPlatform × String := (e.platform, e.externalOrderId)

/-- The stock movements of the order's kitchen ticket. -/
def movements (e : Ingested) : List StockMovement :=
  e.consumption.map fun c => ⟨c.rawMaterialId, c.moved, e.kotId⟩

end Ingested

structure ConnectorDb where
  billing : BillingDb
  aggregatorOrders : KeyedTable AggregatorOrder.id
  rawMaterials : KeyedTable RawMaterial.id
  stockMovements : List StockMovement
  /-- The orders as they were ingested, which no statement reads. -/
  journal : List Ingested
  deriving DecidableEq

/-- What transactions lock. -/
inductive LockKey
  | aggregatorOrder (id : ℕ)
  /-- The unique key of an order. -/
  | key (key : AggregatorPlatform × String)
  | rawMaterial (id : String)
  | billing (k : Billing.LockKey)
  deriving DecidableEq

abbrev ConnectorTx (α : Type) := ServiceTx ConnectorDb LockKey α

abbrev ConnectorMethod := ServiceMethod ConnectorDb LockKey Unit

/-! ### Statements -/

namespace ConnectorDb

def findOrder (db : ConnectorDb) (key : AggregatorPlatform × String) : Option AggregatorOrder :=
  db.aggregatorOrders.rows.find? fun r => r.key = key

/-- Update the row with an id. -/
def updateOrder (id : ℕ) (f : AggregatorOrder → AggregatorOrder) (hf : ∀ r, (f r).id = r.id)
    (db : ConnectorDb) : ConnectorDb :=
  { db with aggregatorOrders := db.aggregatorOrders.modify (fun r => r.id = id) f hf }

end ConnectorDb

/-- A stock, less a quantity that is given as a double. -/
def decrement (stock : Decimal 12 3) (quantity : Binary64) : Option (Decimal 12 3) :=
  Decimal.ofScaled (Decimal.roundHalfAway (stock.scaled - quantity.shortest * 10 ^ 3))

/-- Take something from the stock of a material. -/
def deplete (rawMaterials : KeyedTable RawMaterial.id) (c : Consumed) :
    KeyedTable RawMaterial.id :=
  rawMaterials.modify (fun m => m.id = c.rawMaterialId)
    (fun m => { m with stockQty := (decrement m.stockQty c.quantity).getD m.stockQty }) fun _ => rfl

/-! ### What a delivery is matched with -/

structure AggregatorMenuMap where
  channelId : String
  externalId : String
  itemId : String

structure RecipeIngredient where
  itemId : String
  rawMaterialId : String
  quantity : Decimal 12 3

/-- The rows of the menu that a delivery is matched with. -/
structure ConnectorMenu where
  menu : Menu
  maps : List AggregatorMenuMap
  recipe : List RecipeIngredient

structure ConnectorItem where
  externalItemId : String
  quantity : ℕ
  quantity_pos : 0 < quantity

/-- An order as the connector forwards it. -/
structure ConnectorIngestInput where
  platform : AggregatorPlatform
  externalOrderId : String
  outletId : String
  items : List ConnectorItem
  items_ne : items ≠ []
  customerName : Option String
  customerPhoneMasked : Option String
  orderValue : Binary64

def ConnectorIngestInput.key (input : ConnectorIngestInput) : AggregatorPlatform × String :=
  (input.platform, input.externalOrderId)

/-- The item of the menu that stands for one of the channel; of several the last. -/
def internalItem (maps : List AggregatorMenuMap) (channel : Billing.Channel)
    (externalId : String) : Option String :=
  truthy ((maps.reverse.find? fun m => m.channelId = channel.id ∧ m.externalId = externalId).map
    (·.itemId))

def matchItem (maps : List AggregatorMenuMap) (channel : Option Billing.Channel)
    (line : ConnectorItem) : Option MatchedItem := do
  let channel ← channel
  let itemId ← internalItem maps channel line.externalItemId
  return ⟨itemId, line.quantity, line.quantity_pos⟩

def MatchedItem.input (m : MatchedItem) : OrderItemInput :=
  ⟨m.itemId, none, [], m.quantity, m.quantity_pos, none, none, none⟩

/-- Add what an item's recipe takes. -/
def consume (recipe : List RecipeIngredient) (consumption : List (String × Binary64))
    (m : MatchedItem) : List (String × Binary64) :=
  (recipe.filter fun r => r.itemId = m.itemId).foldl (fun acc r =>
    let need := r.quantity.toNumber * .ofRat m.quantity
    if acc.any (·.1 = r.rawMaterialId) then
      acc.map fun p => if p.1 = r.rawMaterialId then (p.1, p.2 + need) else p
    else acc ++ [(r.rawMaterialId, 0 + need)]) consumption

/-! ### Ingesting -/

/-- Take what a kitchen ticket consumes from the stock of one material. -/
def consumeMaterial (kotId : RowId) (c : String × Binary64) : ConnectorTx Consumed := do
  acquire (.rawMaterial c.1)
  let row ← query fun db => db.rawMaterials.find? c.1
  let material ← require row .database
  let _ ← require (decrement material.stockQty c.2) .database
  let moved ← require (Decimal.ofNumber (-c.2)) .database
  let consumed : Consumed := ⟨c.1, c.2, moved⟩
  update fun db => { db with rawMaterials := deplete db.rawMaterials consumed }
  update fun db => { db with stockMovements := db.stockMovements ++ [⟨c.1, moved, kotId⟩] }
  return consumed

/-- The failures of the bill's part of a transaction. -/
def billingError : BillingError → ServiceError
  | .badRequest message => .badRequest message
  | .notFound message => .notFound message
  | .forbidden message => .forbidden message
  | .database => .database
  | .p2002 => .p2002
  | .rejectOp message => .badRequest message

/-- Open the bill of an order and send its items to the kitchen, with what they take from the
stock. -/
def ingestAggregatorOrderTx (menu : ConnectorMenu) (input : ConnectorIngestInput)
    (channel : Option Billing.Channel) (matched : List MatchedItem) (hmatched : matched ≠ []) :
    ConnectorTx IngestResult := do
  let r ← (Billing.ingestAggregatorOrder menu.menu
      ⟨input.outletId, matched.map (·.input), by simpa using hmatched, input.customerName,
        input.customerPhoneMasked,
        some ((channel.map (·.name)).getD (platformChannel input.platform))⟩).onPart
    ConnectorDb.billing (fun billing db => { db with billing := billing }) LockKey.billing billingError
  let kotId : RowId := ⟨r.orderId.stamp, 1⟩
  let consumption ← (matched.foldl (consume menu.recipe) []).mapM (consumeMaterial kotId)
  update fun db => { db with
    journal := db.journal ++ [⟨input.platform, input.externalOrderId, r.orderId, kotId, consumption⟩] }
  return r

/-- What a delivery is answered. -/
structure ConnectorIngestResult where
  aggregatorOrderId : Option ℕ
  orderId : Option RowId
  kotNumber : Option ℕ
  matched : ℕ
  unmatched : List String
  duplicate : Bool

def ingestTx (menu : ConnectorMenu) (input : ConnectorIngestInput)
    (channel : Option Billing.Channel) (matched : List MatchedItem) (unmatched : List String) :
    ConnectorTx ConnectorIngestResult := do
  -- the key comes first
  acquire (.key input.key)
  let existing ← query fun db => db.findOrder input.key
  check (existing = none) .p2002
  let orderValue ← require (Decimal.ofNumber input.orderValue) .database
  let id ← draw
  acquire (.aggregatorOrder id)
  update fun db => { db with
    aggregatorOrders := db.aggregatorOrders.put ⟨id, input.outletId, input.platform,
      input.externalOrderId, none, .received, input.customerName, input.customerPhoneMasked,
      orderValue, unmatched, matched⟩ }
  if hmatched : matched ≠ [] then do
    let r ← ingestAggregatorOrderTx menu input channel matched hmatched
    update (·.updateOrder id (fun row => { row with orderId := some r.orderId, status := .accepted })
      fun _ => rfl)
    return ⟨some id, some r.orderId, some r.kotNumber, matched.length, unmatched, false⟩
  else
    return ⟨some id, none, none, 0, unmatched, false⟩

/-- Ingest an order; a delivery whose key is taken is a duplicate. -/
def ingest (menu : ConnectorMenu) (input : ConnectorIngestInput) :
    ConnectorMethod ConnectorIngestResult := do
  let outlet ← look fun db => db.billing.outlets.find? input.outletId
  let _ ← getOr outlet (.notFound "Unknown outlet")
  let channel := menu.menu.channels.find? fun c =>
    c.outletId = input.outletId ∧ c.name = platformChannel input.platform
  let matched := input.items.filterMap (matchItem menu.maps channel)
  let unmatched := (input.items.filter fun line =>
    (matchItem menu.maps channel line).isNone).map (·.externalItemId)
  tryCatch (autocommit () (ingestTx menu input channel matched unmatched)) fun
    | .p2002 => do
      let existing ← look fun db => db.findOrder input.key
      return ⟨existing.map (·.id), existing.bind (·.orderId), none, 0,
        existing.elim [] (·.unmatchedItems), true⟩
    | e => throw e

/-- The aggregator reports on an order. -/
def updateStatus (platform : AggregatorPlatform) (externalOrderId : String)
    (status : AggregatorStatus) : ConnectorMethod Unit := do
  let row ← look fun db => db.findOrder (platform, externalOrderId)
  let agg ← getOr row (.notFound "Aggregator order not found")
  let updated ← autocommit () (updateWhere (.aggregatorOrder agg.id)
    (fun db => (db.aggregatorOrders.find? agg.id).isSome)
    (·.updateOrder agg.id (fun r => { r with status := status }) fun _ => rfl))
  guardOr (updated = true) .database

/-! ### Side by side -/

inductive ConnectorRequest
  | ingest (menu : ConnectorMenu) (input : ConnectorIngestInput)
  | updateStatus (platform : AggregatorPlatform) (externalOrderId : String) (status : AggregatorStatus)

def ConnectorRequest.run : ConnectorRequest → ConnectorMethod Unit
  | .ingest menu input => do
    let _ ← Connector.ingest menu input
    return ()
  | .updateStatus platform externalOrderId status =>
    Connector.updateStatus platform externalOrderId status

abbrev ConnectorWorld := World ConnectorDb LockKey Unit Empty Empty (Except ServiceError Unit)

/-- The methods side by side, before the first order. -/
def connector : Machine ConnectorWorld (WorldAction ConnectorRequest Empty) :=
  serve (fun r : ConnectorRequest => r.run.run) fun db _ =>
    db.billing.orders = .empty ∧ db.billing.kots = .empty ∧ db.aggregatorOrders = .empty ∧
      db.stockMovements = [] ∧ db.journal = []

end StelloKitchens.Connector
