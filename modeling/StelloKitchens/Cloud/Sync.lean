import StelloKitchens.Cloud.Orders

/-!
# The sync endpoint

The older way for a device to deliver its orders: a signed-in user pushes them to the sync
endpoint, which looks the terminal up by its id or its device token and stores each order under
the name that the request gave.

Pricing the items, their tickets and their stock is the work of the billing code that all orders
share; what it returns for an order is a value that the transaction reads.

## Main definitions

* `Cloud.Terminal`, `findTerminal` — the registered terminals.
* `CloudDb.insertSynced` — the transaction that stores an order.
* `CloudDb.applySyncedOrder` — one order of a push.

## Main results

* `CloudDb.insertSynced_spec` — an order is stored under the given name, which was free.
-/

namespace StelloKitchens

open Checked

/-- A registered terminal. -/
structure Cloud.Terminal where
  id : String
  tenantId : String
  outletId : String
  deviceToken : String
  isActive : Bool
  deriving DecidableEq

/-- The active terminal of an outlet that a name stands for: its id or its device token. -/
def findTerminal (terminals : List Cloud.Terminal) (tenantId outletId deviceId : String) :
    Option Cloud.Terminal :=
  terminals.find? fun t => t.tenantId = tenantId ∧ t.outletId = outletId ∧ t.isActive ∧
    (t.id = deviceId ∨ t.deviceToken = deviceId)

/-! ### Orders on the wire -/

structure SyncedItem where
  itemId : String
  variationId : Option String
  addonIds : List String
  quantity : Binary64
  note : Option String
  offlineUnitPrice : Option Binary64
  offlineTaxRate : Option Binary64
  deriving DecidableEq

structure SyncedPayment where
  mode : PaymentMode
  amount : Binary64
  deriving DecidableEq

structure SyncedOrderInput where
  clientId : String
  orderType : OrderType
  tableId : Option String
  customerName : Option String
  customerPhone : Option String
  items : List SyncedItem
  payments : List SyncedPayment
  status : OrderStatus
  offlineRef : Option String
  discountAmount : Option Binary64
  clientUpdatedAt : Stamp
  deriving DecidableEq

/-- An order with the outlet and the name of the device it came from. -/
structure SyncedParams where
  tenantId : String
  outletId : String
  deviceId : String
  order : SyncedOrderInput

/-! ### What the statements read -/

/-- What the billing code makes of the items of an order. -/
structure Punched where
  rows : List Cloud.OrderItem
  kot : Cloud.Kot
  consumption : List (String × Binary64)
  totals : OrderTotals

/-- The values that the statements of one transaction return, and the id it draws. -/
structure SyncedReads where
  now : Time
  orderId : ℕ
  tableExists : Bool
  /-- The order that is there under the device's name, as it is looked up once the table is
  locked. -/
  previous : Option ℕ
  openOrder : Bool
  billNumber : ℕ
  punched : Except String Punched

inductive SyncError
  /-- The order is refused. -/
  | badRequest (message : String)
  /-- A unique key is taken. -/
  | p2002
  deriving DecidableEq

/-- What the transaction did: nothing, as the order is there, or an order row. -/
inductive Synced
  | previous (id : ℕ)
  | stored (row : Cloud.Order)

/-- The sum of the payments in paise. -/
def SyncedOrderInput.paidPaise (order : SyncedOrderInput) : Binary64 :=
  order.payments.foldl (fun s p => s + toPaise p.amount) 0

/-- The order row. -/
def syncedRow (p : SyncedParams) (r : SyncedReads) (totals : OrderTotals) : Cloud.Order where
  id := r.orderId
  tenantId := p.tenantId
  outletId := p.outletId
  orderType := p.order.orderType
  status := p.order.status
  tableId := if p.order.orderType = .dineIn then p.order.tableId else none
  customerName := p.order.customerName
  customerPhone := p.order.customerPhone
  couponCode := none
  deviceId := p.deviceId
  clientId := p.order.clientId
  offlineRef := p.order.offlineRef
  billNumber := if p.order.status = .settled then some ("B-" ++ toString r.billNumber) else none
  subtotal := totals.subtotal
  discountAmount := totals.discountAmount
  taxAmount := totals.taxAmount
  total := totals.total
  createdById := none
  createdAt := r.now

namespace CloudDb

/-- Everything an order writes. -/
def writeSynced (db : CloudDb) (p : SyncedParams) (r : SyncedReads) (punched : Punched) :
    CloudDb :=
  let owned := punched.consumption.filter fun c => db.rawMaterials.rows.any fun m =>
    m.id = c.1 ∧ m.tenantId = p.tenantId ∧ m.outletId = p.outletId
  { db with
    orders := db.orders.put (syncedRow p r punched.totals)
    orderItems := db.orderItems ++ punched.rows
    kots := db.kots ++ [punched.kot]
    payments := db.payments ++ if p.order.status = .settled then
      p.order.payments.map fun q => ⟨r.orderId, q.mode, q.amount, r.now⟩ else []
    rawMaterials := owned.foldl (fun t c => deplete p.tenantId p.outletId t c.1 c.2) db.rawMaterials
    stockMovements := db.stockMovements ++ owned.map fun c => ⟨p.tenantId, p.outletId, c.1,
      numeric 3 (-jsDecimal c.2), punched.kot.id⟩
    outlets := advanceOutlet db.outlets p.outletId (p.order.status = .settled) }

/-- The checks of a dine-in order, under the lock of its table: the order that is there already. -/
def checkTable (p : SyncedParams) (r : SyncedReads) : Except SyncError (Option ℕ) :=
  if p.order.orderType = .dineIn then do
    ensure (truthy p.order.tableId).isSome (.badRequest "Dine-in orders need a table")
    ensure r.tableExists (.badRequest "Table not found in this outlet")
    match r.previous with
    | some id => return some id
    | none =>
      ensure (¬(p.order.status = .opened ∧ r.openOrder))
        (.badRequest "Table already has an open order")
      return none
  else return none

/-- The transaction that stores an order, from what its statements read. -/
def insertSynced (db : CloudDb) (p : SyncedParams) (r : SyncedReads) :
    Except SyncError (CloudDb × Synced) := do
  match ← checkTable p r with
  | some id => return (db, .previous id)
  | none =>
    ensure (db.orders.find? (p.deviceId, p.order.clientId) = none) .p2002
    let punched ← r.punched.mapError .badRequest
    ensure (p.order.status = .settled → p.order.payments ≠ [] ∧
        p.order.paidPaise = toPaise punched.totals.total)
      (.badRequest "Offline settled order payments do not match the server total")
    return (db.writeSynced p r punched, .stored (syncedRow p r punched.totals))

/-- The answer to one order of a push. -/
inductive SyncAnswer
  | applied (serverId : String) (billNumber : Option String)
  | duplicate (serverId : String) (billNumber : Option String)
  | error (message : String)
  deriving DecidableEq

/-- The order that the name of a device stands for in its outlet. -/
def findSynced (db : CloudDb) (p : SyncedParams) : Option Cloud.Order :=
  (db.orders.find? (p.deviceId, p.order.clientId)).filter fun o =>
    o.tenantId = p.tenantId ∧ o.outletId = p.outletId

/-- Apply one order of a push: an order that is there under the same name is a duplicate. -/
def applySyncedOrder (db : CloudDb) (p : SyncedParams) (r : SyncedReads) :
    CloudDb × SyncAnswer :=
  match db.insertSynced p r with
  | .ok (db, .stored row) => (db, .applied (rowIdText row.id) row.billNumber)
  | .ok (db, .previous id) => (db, .duplicate (rowIdText id)
      ((db.orders.rows.find? fun o => o.id = id).bind (·.billNumber)))
  | .error .p2002 =>
    (db, match db.findSynced p with
      | some existing => .duplicate (rowIdText existing.id) existing.billNumber
      | none => .error "apply failed")
  | .error (.badRequest message) => (db, .error message)

variable {db db' : CloudDb} {p : SyncedParams} {r : SyncedReads} {res : Synced}

/-- An order that was there changes nothing; another is stored under the name of its device, which
was free. -/
theorem insertSynced_spec (h : db.insertSynced p r = .ok (db', res)) :
    (db' = db ∧ ∃ id, res = .previous id) ∨
      ∃ row, res = .stored row ∧ row.saleKey = (p.deviceId, p.order.clientId) ∧
        db.orders.find? row.saleKey = none ∧ db'.orders = db.orders.put row := by
  unfold insertSynced at h
  obtain ⟨previous, -, h⟩ := bind_eq_ok.mp h
  cases previous with
  | some id =>
    obtain ⟨rfl, rfl⟩ := Prod.mk.inj (pure_eq_ok.mp h)
    exact .inl ⟨rfl, id, rfl⟩
  | none =>
    obtain ⟨_, hfree, h⟩ := bind_eq_ok.mp h
    obtain ⟨punched, -, h⟩ := bind_eq_ok.mp h
    obtain ⟨_, -, h⟩ := bind_eq_ok.mp h
    obtain ⟨rfl, rfl⟩ := Prod.mk.inj (pure_eq_ok.mp h)
    exact .inr ⟨_, rfl, rfl, ensure_eq_ok.mp hfree, rfl⟩

end CloudDb

end StelloKitchens
