import StelloKitchens.Billing.Menu

/-!
# Opening bills

The transactions of the order service that open bills and add to them: at the counter, from a
scanned table, by an aggregator or by a device that synchronises. Each is the sequence of its
statements. Where the service looks a row up before its transaction, the lookup is the first
statement here, without a lock.

## Main definitions

* `lockTable`, `lockOpenOrder` — the locks that every path takes.
* `recomputeTotals`, `punchItems` — the figures and the lines of a bill.
* `create`, `ingestScanOrder`, `ingestAggregatorOrder`, `applySyncedOrder`, `addItems` — the ways
  to open a bill or add to it.
-/

namespace StelloKitchens.Billing

open Checked Tx

def assertOutlet (user : AuthUser) (outletId : String) : Except BillingError Unit :=
  ensure (outletId ∈ user.outletIds) (.forbidden "No access to outlet")

/-! ### Lookups and locks -/

/-- A bill, looked up without a lock. -/
def requireOrder (user : AuthUser) (orderId : RowId) : BillingTx Order := do
  let row ← query fun db : BillingDb => db.orders.find? orderId
  let order ← require row (.notFound "Order not found")
  assertOutlet user order.outletId
  return order

/-- Lock a table of the outlet. -/
def lockTable (outletId tableId : String) : BillingTx Unit := do
  acquire (.table tableId)
  let table ← query fun db : BillingDb => db.tables.find? tableId
  check (table.any (·.outletId = outletId)) (.badRequest "Table not found in this outlet")

/-- Lock a bill that has to be open. -/
def lockOpenOrder (user : AuthUser) (orderId : RowId) : BillingTx Order := do
  acquire (.order orderId)
  let row ← query fun db : BillingDb => db.orders.find? orderId
  let order ← require row (.notFound "Order not found")
  assertOutlet user order.outletId
  check (order.status = .opened) (.badRequest "Order is not open")
  return order

/-- Split bills and their checks are frozen: only the checks settle. -/
def assertNotSplit (order : Order) (action : String) : Except BillingError Unit := do
  ensure (order.splitCount = none)
    (.badRequest ("This bill is split into checks — unsplit it to " ++ action))
  ensure (order.parentOrderId = none)
    (.badRequest ("This is a split check — unsplit the parent bill to " ++ action))

/-! ### The figures of a bill -/

def loadBillingRules (outletId : String) : BillingTx BillingRules := do
  let outlet ← query fun db : BillingDb => db.outlets.find? outletId
  return (outlet.bind (·.billingSettings)).getD defaultBillingRules

/-- The service charge a bill attracts. -/
def serviceChargeFor (rules : BillingRules) (order : Order) : Option ServiceCharge :=
  if !rules.serviceChargeEnabled || rules.serviceChargePercent ≤ 0 || order.serviceChargeWaived then
    none
  else if order.orderType ∈ rules.serviceChargeOrderTypes then
    some ⟨rules.serviceChargePercent, rules.serviceChargeTaxable⟩
  else none

/-- A line as the bill's arithmetic takes it. -/
def OrderItem.moneyLine (i : OrderItem) : MoneyLine :=
  ⟨toPaise i.lineTotal.toNumber, i.taxRate.toNumber⟩

/-- The bill of an order's current lines; `plain` leaves out service charge and round-off, which
devices do not know. -/
def billFor (orderId : RowId) (discount : Binary64) (plain : Bool) :
    BillingTx (BillTotals × Option ServiceCharge) := do
  let row ← query fun db : BillingDb => db.orders.find? orderId
  let order ← require row .database
  let items ← query fun db => db.itemsOf orderId
  let rules ← loadBillingRules order.outletId
  let sc := if plain then none else serviceChargeFor rules order
  return (computeBill (items.map (·.moneyLine)) ⟨discount, sc, !plain && rules.roundOffEnabled⟩, sc)

/-- The columns of the figures of a bill. -/
def figuresOf (totals : BillTotals) (sc : Option ServiceCharge) : Except BillingError OrderFigures :=
  return {
    subtotal := ← store totals.subtotal
    discountAmount := ← store totals.discountAmount
    serviceChargeAmount := ← store totals.serviceChargeAmount
    serviceChargeRate := ← store (sc.elim 0 (·.percent))
    serviceChargeTaxable := sc.any (·.taxable)
    taxAmount := ← store totals.taxAmount
    roundOff := ← store totals.roundOff
    total := ← store totals.total }

def BillingDb.setFigures (db : BillingDb) (orderId : RowId) (figures : OrderFigures) : BillingDb :=
  db.updateOrder orderId (fun o => { o with figures := figures }) fun _ => rfl

/-- Compute the figures of a bill and store them. Without a discount given, a split check takes
its share of its parent's. -/
def recomputeTotals (orderId : RowId) (discount : Option Binary64) (plain : Bool) :
    BillingTx OrderFigures := do
  let row ← query fun db : BillingDb => db.orders.find? orderId
  let order ← require row .database
  let (totals, sc) ← billFor orderId (discount.getD order.allocatedDiscount.toNumber) plain
  let figures ← figuresOf totals sc
  update fun db => db.setFigures orderId figures
  return figures

/-! ### Rounds -/

def BillingDb.insertKot (db : BillingDb) (kot : Kot) : BillingDb :=
  { db with kots := db.kots.put kot }

def BillingDb.recordChoices (db : BillingDb) (choices : List ComboChoice) : BillingDb :=
  { db with comboChoices := db.comboChoices ++ choices }

/-- The next number of one of the outlet's counters. -/
def drawNumber (outletId : String) (counter : Outlet → ℕ) (advance : Outlet → Outlet)
    (hadvance : ∀ o, (advance o).id = o.id) : BillingTx ℕ := do
  acquire (.outlet outletId)
  let row ← query fun db : BillingDb => db.outlets.find? outletId
  let outlet ← require row .database
  update fun db => db.updateOutlet outletId advance hadvance
  return counter outlet

def nextKotNumber (outletId : String) : BillingTx ℕ :=
  drawNumber outletId (·.nextKotNumber) (fun o => { o with nextKotNumber := o.nextKotNumber + 1 })
    fun _ => rfl

def nextBillNumber (outletId : String) : BillingTx ℕ :=
  drawNumber outletId (·.nextBillNumber)
    (fun o => { o with nextBillNumber := o.nextBillNumber + 1 }) fun _ => rfl

/-- Insert the lines of a round and the kitchen ticket for them. -/
def punchItems (menu : Menu) (t : PunchTarget) (opts : PunchOptions) (items : List OrderItemInput)
    (combos : List ComboOrderInput) : BillingTx Unit := do
  let outlet ← query fun db : BillingDb => db.outlets.find? t.outletId
  let _ ← require outlet (.notFound "Outlet not found")
  let number ← nextKotNumber t.outletId
  update fun db => db.insertKot ⟨t.kotId, t.outletId, t.orderId, number⟩
  let (lines, choices) ← punchLines menu t opts items combos
  update fun db => db.putItems lines
  update fun db => db.recordChoices choices

/-- A bill as it is opened. -/
def newOrder (id : RowId) (outletId : String) (orderType : OrderType) (tableId : Option String)
    (customerName customerPhone : Option String) : Order where
  id := id
  outletId := outletId
  orderType := orderType
  status := .opened
  tableId := tableId
  customerName := customerName
  customerPhone := customerPhone
  couponCode := none
  syncKey := none
  billNumber := none
  figures := .zero
  serviceChargeWaived := false
  allocatedDiscount := 0
  parentOrderId := none
  splitIndex := none
  splitCount := none
  mergedIntoOrderId := none

/-- What the counter or a diner asks for, at least one item or combo. -/
structure RoundInput where
  items : List OrderItemInput
  combos : List ComboOrderInput
  nonempty : items ≠ [] ∨ combos ≠ []

structure CreateOrderInput where
  outletId : String
  orderType : OrderType
  tableId : Option String
  customerName : Option String
  customerPhone : Option String
  round : RoundInput

/-- Open a bill at the counter. -/
def create (user : AuthUser) (menu : Menu) (input : CreateOrderInput) : BillingTx Unit := do
  assertOutlet user input.outletId
  let tableId ← if input.orderType = .dineIn then do
      let tableId ← require (truthy input.tableId) (.badRequest "Dine-in orders need a table")
      lockTable input.outletId tableId
      let existing ← query fun db : BillingDb => db.findOpen input.outletId tableId
      check (existing = none) (.badRequest "Table already has an open order")
      pure (some tableId)
    else pure none
  let stamp ← draw
  let id : RowId := ⟨stamp, 0⟩
  update fun db => db.insertOrder
    (newOrder id input.outletId input.orderType tableId input.customerName input.customerPhone)
  punchItems menu ⟨id, input.outletId, stamp⟩ ⟨.pos input.orderType, false⟩ input.round.items
    input.round.combos
  let _ ← recomputeTotals id none false
  return ()

structure AggregatorInput where
  outletId : String
  items : List OrderItemInput
  items_ne : items ≠ []
  customerName : Option String
  customerPhone : Option String
  channelName : Option String

/-- The bill of an aggregator's order, with the first of its kitchen tickets. -/
structure IngestResult where
  orderId : RowId
  kotNumber : ℕ
  total : Amount
  deriving DecidableEq

/-- Open a bill for an aggregator's order. -/
def ingestAggregatorOrder (menu : Menu) (input : AggregatorInput) : BillingTx IngestResult := do
  let stamp ← draw
  let id : RowId := ⟨stamp, 0⟩
  update fun db => db.insertOrder
    (newOrder id input.outletId .delivery none input.customerName input.customerPhone)
  punchItems menu ⟨id, input.outletId, stamp⟩ ⟨.aggregator input.channelName, false⟩ input.items []
  let figures ← recomputeTotals id none false
  let kots ← query fun db : BillingDb =>
    (db.kots.rows.filter fun k => k.orderId = id).map (·.kotNumber)
  return ⟨id, kots.min?.getD 0, figures.total⟩

structure ScanInput where
  outletId : String
  /-- A diner at a table, or one who takes away. -/
  dineIn : Bool
  tableId : Option String
  customerName : Option String
  customerPhone : Option String
  round : RoundInput

/-- The bill that a diner's round is added to: the open one on the table, locked and read again. -/
def runningBill (outletId tableId : String) : BillingTx (Option Order) := do
  lockTable outletId tableId
  let existing ← query fun db : BillingDb => db.findOpen outletId tableId
  match existing with
  | none => return none
  | some found =>
    acquire (.order found.id)
    let row ← query fun db : BillingDb => db.orders.find? found.id
    let order := row.filter fun o => o.status = .opened
    check (order.all fun o => o.splitCount = none)
      (.badRequest "This table's bill is being split; ask staff to finish billing first")
    return order

/-- Add a diner's round to the open bill of the table, or open a bill; the bill. -/
def ingestScanOrder (menu : Menu) (input : ScanInput) : BillingTx RowId := do
  let orderType : OrderType := if input.dineIn then .dineIn else .takeaway
  let (tableId, order) ← if input.dineIn then do
      let tableId ← require (truthy input.tableId) (.badRequest "Dine-in orders need a table")
      let order ← runningBill input.outletId tableId
      pure (some tableId, order)
    else pure (none, none)
  let stamp ← draw
  let id ← match order with
    | some order => pure order.id
    | none => do
      let id : RowId := ⟨stamp, 0⟩
      update fun db => db.insertOrder
        (newOrder id input.outletId orderType tableId input.customerName input.customerPhone)
      pure id
  punchItems menu ⟨id, input.outletId, stamp⟩ ⟨.scan orderType, false⟩ input.round.items
    input.round.combos
  let _ ← recomputeTotals id none false
  return id

/-- Add a round to an open bill. -/
def addItems (user : AuthUser) (menu : Menu) (orderId : RowId) (round : RoundInput) :
    BillingTx Unit := do
  let order ← requireOrder user orderId
  let locked ← lockOpenOrder user orderId
  assertNotSplit locked "add items"
  let stamp ← draw
  punchItems menu ⟨orderId, order.outletId, stamp⟩ ⟨.pos order.orderType, false⟩ round.items
    round.combos
  let _ ← recomputeTotals orderId none false
  return ()

/-! ### Synchronised orders -/

structure SyncedPayment where
  mode : PaymentMode
  amount : Binary64
  deriving DecidableEq

structure SyncedOrderInput where
  clientId : String
  orderType : OrderType
  tableId : Option String
  customerName : Option String
  customerPhone : Option String
  items : List OrderItemInput
  items_ne : items ≠ []
  payments : List SyncedPayment
  status : OrderStatus
  discountAmount : Option Binary64

def syncedStatus : OrderStatus → BillStatus
  | .opened => .opened
  | .settled => .settled
  | .cancelled => .cancelled

/-- The checks of a synchronised dine-in order, under the lock of its table: whether it is there
already. -/
def checkSyncedTable (outletId deviceId : String) (order : SyncedOrderInput) (tableId : String) :
    BillingTx Bool := do
  lockTable outletId tableId
  let previous ← query fun db : BillingDb =>
    db.orders.rows.find? fun o => o.outletId = outletId ∧ o.syncKey = some (deviceId, order.clientId)
  if previous.isSome then return true
  else
    let existing ← query fun db : BillingDb => db.findOpen outletId tableId
    check (¬(order.status = .opened ∧ existing.isSome))
      (.badRequest "Table already has an open order")
    return false

/-- Store a synchronised order with its lines and, when settled, its payments. -/
def insertSynced (menu : Menu) (outletId deviceId : String) (order : SyncedOrderInput)
    (tableId : Option String) : BillingTx Unit := do
  let number ← if order.status = .settled then some <$> nextBillNumber outletId else pure none
  -- the unique key makes a second insert wait for the first and then fail
  acquire (.syncKey deviceId order.clientId)
  let taken ← query fun db : BillingDb =>
    db.orders.rows.any fun o => o.syncKey = some (deviceId, order.clientId)
  check (taken = false) .p2002
  let stamp ← draw
  let id : RowId := ⟨stamp, 0⟩
  update fun db => db.insertOrder { newOrder id outletId order.orderType tableId
      order.customerName order.customerPhone with
    status := syncedStatus order.status
    syncKey := some (deviceId, order.clientId)
    billNumber := number.map fun n => "B-" ++ toString n }
  punchItems menu ⟨id, outletId, stamp⟩ ⟨.sync order.orderType, true⟩ order.items []
  let figures ← recomputeTotals id (some (order.discountAmount.getD 0)) true
  let paidPaise := order.payments.foldl (fun s p => s + toPaise p.amount) 0
  check (order.status = .settled → order.payments ≠ [] ∧
      paidPaise = toPaise figures.total.toNumber)
    (.badRequest "Offline settled order payments do not match the server total")
  let payments ← order.payments.mapM fun p =>
    return (⟨id, .tender p.mode, ← store p.amount⟩ : OrderPayment)
  update fun db => { db with
    payments := db.payments ++ if order.status = .settled then payments else [] }

/-- Apply an order from a device, unless it is there already. -/
def applySyncedOrder (menu : Menu) (outletId deviceId : String) (order : SyncedOrderInput) :
    BillingTx Unit := do
  if order.orderType = .dineIn then
    let tableId ← require (truthy order.tableId) (.badRequest "Dine-in orders need a table")
    let previous ← checkSyncedTable outletId deviceId order tableId
    if previous then return ()
    else insertSynced menu outletId deviceId order (some tableId)
  else insertSynced menu outletId deviceId order none

end StelloKitchens.Billing
