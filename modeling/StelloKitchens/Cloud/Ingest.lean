import StelloKitchens.Cloud.Sale

/-!
# Ingest of a device's outbox

The cloud applies a pushed batch one operation at a time, each in a transaction of its own. An
order is stored once under its terminal and client id; a kitchen update sets the statuses of the
lines of a stored order.

## Main definitions

* `CloudDb.insertOrder` — the transaction that stores a sale.
* `CloudDb.applyOrder`, `CloudDb.applyKotStatus` — one operation.
* `CloudDb.push` — a batch.
-/

namespace StelloKitchens

open Checked

/-- Why the transaction of a sale was rolled back. -/
inductive IngestError
  /-- The order cannot be recorded as it is. -/
  | rejectOp (message : String)
  /-- A unique key is taken. -/
  | p2002
  /-- The database failed. -/
  | database
  deriving DecidableEq

namespace CloudDb

/-! ### What a transaction reads -/

/-- The activation of the device's terminal that owns a series. -/
def seriesOwner (db : CloudDb) (device : EdgeDeviceContext) (series : String) : Option String :=
  (db.edgeDevices.find? fun d => d.tenantId = device.tenantId ∧ d.outletId = device.outletId ∧
    d.terminalId = device.terminalId ∧ d.seriesCode = series).map (·.id)

/-- The activation that a bill of this device is filed under. -/
def billOwner (db : CloudDb) (device : EdgeDeviceContext) (b : EdgeBillNo) : Option String :=
  if b.series = device.seriesCode then some device.edgeDeviceId else db.seriesOwner device b.series

/-- The values that the statements of a transaction return when it runs on its own. -/
def reads (db : CloudDb) (device : EdgeDeviceContext) (order : EdgeOrderInput) (now : Time) :
    Reads :=
  let b := order.billNo
  let outlet := db.outlets.find? device.outletId
  { now := now
    orderId := db.freshId
    knownStaff := (db.users.filter fun u => u.tenantId = device.tenantId ∧
      device.outletId ∈ u.outletIds).map (·.id)
    tableExists := db.tables.any fun t => some t.id = order.tableId ∧
      t.tenantId = device.tenantId ∧ t.outletId = device.outletId
    coupon := (order.couponCode.bind fun code =>
      db.coupons.find? (device.outletId, code.toUpper)).filter (·.tenantId = device.tenantId)
    owner := b.bind fun b => db.seriesOwner device b.series
    taken := b.any fun b => db.invoiceSeqs.any fun i =>
      (some i.edgeDeviceId = db.billOwner device b ∧ i.fiscalYear = b.fy ∧ i.seq = b.seq) ∨
        (i.outletId = device.outletId ∧ i.billNumber = b.number)
    billNumber := outlet.elim 0 (·.nextBillNumber)
    kotNumber := outlet.elim 0 (·.nextKotNumber)
    item := db.findItem device
    combo := db.findCombo device
    cashSession := (db.cashSessions.find? fun c =>
      c.tenantId = device.tenantId ∧ c.outletId = device.outletId ∧ c.isOpen).map (·.id) }

/-! ### What a sale writes -/

/-- Take what a sale consumed off the stock of the outlet. -/
def deplete (tenantId outletId : String) (rawMaterials : KeyedTable Cloud.RawMaterial.id)
    (id : String) (quantity : Binary64) : KeyedTable Cloud.RawMaterial.id :=
  rawMaterials.modify
    (fun m => m.id = id ∧ m.tenantId = tenantId ∧ m.outletId = outletId)
    (fun m => { m with stockQty := numeric 3 (m.stockQty - jsDecimal quantity) }) fun _ => rfl

/-- The materials of a consumption that the outlet has. -/
def ownedConsumption (db : CloudDb) (device : EdgeDeviceContext) (sale : Sale) :
    List (String × Binary64) :=
  sale.lines.consumption.filter fun c => db.rawMaterials.rows.any fun m =>
    m.id = c.1 ∧ m.tenantId = device.tenantId ∧ m.outletId = device.outletId

/-- Move the counters of an outlet on by one ticket, and by one bill if the sale drew one. -/
def advanceOutlet (outlets : KeyedTable Cloud.Outlet.id) (outletId : String) (drawsBill : Bool) :
    KeyedTable Cloud.Outlet.id :=
  outlets.modify (fun o => o.id = outletId)
    (fun o => { o with
      nextKotNumber := o.nextKotNumber + 1
      nextBillNumber := if drawsBill then o.nextBillNumber + 1 else o.nextBillNumber })
    fun _ => rfl

/-- Count one more use of a coupon. -/
def countCoupon (coupons : KeyedTable Cloud.Coupon.key) (key : String × String) :
    KeyedTable Cloud.Coupon.key :=
  coupons.modify (fun c => c.key = key)
    (fun c => { c with rule := { c.rule with usedCount := c.rule.usedCount + 1 } }) fun _ => rfl

/-- The conflict rows of a sale. -/
def conflictRows (device : EdgeDeviceContext) (sale : Sale) : List Cloud.EdgeSyncConflict :=
  sale.conflicts.map fun c => ⟨device.tenantId, device.outletId, device.edgeDeviceId,
    sale.head.row.clientId, some sale.head.row.id, sale.head.row.billNumber, c.kind, c.message⟩

/-- Everything a sale writes. -/
def write (db : CloudDb) (device : EdgeDeviceContext) (sale : Sale) : CloudDb :=
  let owned := db.ownedConsumption device sale
  { db with
    orders := db.orders.put sale.head.row
    orderItems := db.orderItems ++ sale.lines.rows
    kots := db.kots ++ [sale.kot]
    payments := db.payments ++ sale.payments
    cashMovements := db.cashMovements ++ sale.cash.toList
    rawMaterials := owned.foldl (fun t c => deplete device.tenantId device.outletId t c.1 c.2)
      db.rawMaterials
    stockMovements := db.stockMovements ++ owned.map fun c => ⟨device.tenantId, device.outletId,
      c.1, numeric 3 (-jsDecimal c.2), sale.kot.id⟩
    coupons := match sale.head.coupon with
      | some c => countCoupon db.coupons c.key
      | none => db.coupons
    invoiceSeqs := db.invoiceSeqs ++ sale.head.invoice.toList
    conflicts := db.conflicts ++ conflictRows device sale
    outlets := advanceOutlet db.outlets device.outletId sale.head.drawsBill }

/-- The unique keys that a sale needs are free: its row ids, its terminal and client id, and the
place and the number of its invoice. -/
def keysFree (db : CloudDb) (sale : Sale) : Prop :=
  db.orders.find? sale.head.row.saleKey = none ∧
  (∀ o ∈ db.orders.rows, o.id ≠ sale.head.row.id) ∧ (∀ k ∈ db.kots, k.id ≠ sale.kot.id) ∧
  ∀ i ∈ sale.head.invoice, ∀ j ∈ db.invoiceSeqs,
    (j.edgeDeviceId, j.fiscalYear, j.seq) ≠ (i.edgeDeviceId, i.fiscalYear, i.seq) ∧
      (j.outletId, j.billNumber) ≠ (i.outletId, i.billNumber)

instance (db : CloudDb) (sale : Sale) : Decidable (db.keysFree sale) := by
  unfold keysFree
  infer_instance

/-- The transaction that stores a sale, from what its statements read: its order row is written
before its lines are looked up, so a taken key is found before an unknown item. -/
def insertOrder (db : CloudDb) (device : EdgeDeviceContext) (order : EdgeOrderInput)
    (skewMs : ℤ) (r : Reads) : Except IngestError (CloudDb × Sale) := do
  let head ← (saleHead r device order skewMs).mapError .rejectOp
  ensure (db.orders.find? head.row.saleKey = none) .p2002
  let lines ← (saleLines r order head.closedAt).mapError .rejectOp
  let sale := assembleSale r device order head lines
  ensure (db.keysFree sale) .p2002
  return (db.write device sale, sale)

/-! ### Orders -/

def duplicateResult (key : String) (o : Cloud.Order) : EdgeOpResult :=
  ⟨key, .duplicate, some (rowIdText o.id), o.billNumber, [], none⟩

def retryResult (key message : String) : EdgeOpResult := ⟨key, .retry, none, none, [], some message⟩

/-- The answer to a sale that was stored. -/
def storedResult (key : String) (sale : Sale) : EdgeOpResult :=
  ⟨key, if sale.conflicts = [] then .applied else .conflict, some (rowIdText sale.head.row.id),
    sale.head.row.billNumber, sale.conflicts, none⟩

/-- File a refused order for review. -/
def fileRejected (db : CloudDb) (device : EdgeDeviceContext) (order : EdgeOrderInput)
    (message : String) : CloudDb :=
  { db with conflicts := db.conflicts ++ [⟨device.tenantId, device.outletId, device.edgeDeviceId,
      order.clientId, none, order.billNo.map (·.number), .rejected, message⟩] }

/-- Apply one order: a stored one is a duplicate, a refused one is filed, and after a taken key
the order is looked up once more. -/
def applyOrder (db : CloudDb) (device : EdgeDeviceContext) (key : String) (order : EdgeOrderInput)
    (skewMs : ℤ) (now : Time) : CloudDb × EdgeOpResult :=
  match db.findOrder device order.clientId with
  | some existing => (db, duplicateResult key existing)
  | none =>
    match db.insertOrder device order skewMs (db.reads device order now) with
    | .ok (db, sale) => (db, storedResult key sale)
    | .error .p2002 =>
      (db, match db.findOrder device order.clientId with
        | some dup => duplicateResult key dup
        | none => retryResult key "Invoice number collision; will retry")
    | .error (.rejectOp message) => (db.fileRejected device order message,
        ⟨key, .rejected, none, order.billNo.map (·.number), [], some message⟩)
    | .error .database => (db, retryResult key "Temporary server error")

/-! ### Kitchen updates -/

/-- The lines of an order, in the order they were written. -/
def linesOf (db : CloudDb) (orderId : ℕ) : List Cloud.OrderItem :=
  db.orderItems.filter (·.orderId = orderId)

/-- The lines that an update can address: items on their own, and the parents of combos. -/
def addressed (kind : LineKind) (lines : List Cloud.OrderItem) : List Cloud.OrderItem :=
  lines.filter fun l => match kind with
    | .item => l.comboId.isNone
    | .combo => l.comboId.isSome ∧ l.isComboComponent = false

/-- When a line of an update was ready. -/
def updateReadyAt (now : Time) (s : KotStatusLine) : Option Time :=
  if s.prepStatus = .ready then some ((s.preppedAt.bind Stamp.parse).elim now (min · now)) else none

/-- The ids that go with an addressed line: a combo's parent and its components. -/
def groupIds (lines : List Cloud.OrderItem) (target : Cloud.OrderItem) : List (ℕ × ℕ) :=
  match target.comboGroupId with
  | some g => (lines.filter (·.comboGroupId = some g)).map (·.id)
  | none => [target.id]

/-- The ids of the lines that one line of an update sets; an index past the lines sets none. -/
def updatedIds (lines : List Cloud.OrderItem) (s : KotStatusLine) : List (ℕ × ℕ) :=
  match (addressed s.kind lines)[s.lineIndex]? with
  | none => []
  | some target => groupIds lines target

instance (id : ℕ × ℕ) (lines : List Cloud.OrderItem) (s : KotStatusLine) :
    Decidable (id ∈ updatedIds lines s) := List.instDecidableMemOfLawfulBEq ..

/-- Set the status of the lines that one line of an update addresses. -/
def setStatus (now : Time) (lines : List Cloud.OrderItem) (items : List Cloud.OrderItem)
    (s : KotStatusLine) : List Cloud.OrderItem :=
  items.map fun i => if i.id ∈ updatedIds lines s then
    { i with prepStatus := s.prepStatus, preppedAt := updateReadyAt now s } else i

/-- The status of a ticket whose lines are these: ready when all of them are. -/
def ticketStatusOf (items : List Cloud.OrderItem) (k : Cloud.Kot) : Cloud.KotStatus :=
  if ∀ i ∈ items, i.orderId = k.orderId ∧ i.kot = some k.no → i.prepStatus = .ready then .ready
  else .pending

/-- The ticket with the status its lines give it. -/
def refreshed (items : List Cloud.OrderItem) (k : Cloud.Kot) : Cloud.Kot :=
  { k with status := ticketStatusOf items k }

/-- Bring the tickets of an order up to date with its lines. -/
def refreshTicket (items : List Cloud.OrderItem) (orderId : ℕ) (k : Cloud.Kot) : Cloud.Kot :=
  if k.orderId = orderId then refreshed items k else k

/-- Apply one kitchen update to the lines of a stored order. -/
def applyKotStatus (db : CloudDb) (device : EdgeDeviceContext) (key clientId : String)
    (lines : List KotStatusLine) (now : Time) : CloudDb × EdgeOpResult :=
  match db.findOrder device clientId with
  | none => (db, retryResult key "Order has not synced yet")
  | some order =>
    let items := lines.foldl (setStatus now (db.linesOf order.id)) db.orderItems
    ({ db with orderItems := items, kots := db.kots.map (refreshTicket items order.id) },
      ⟨key, .applied, some (rowIdText order.id), order.billNumber, [], none⟩)

/-! ### A batch -/

/-- Apply one operation. -/
def applyOp (db : CloudDb) (device : EdgeDeviceContext) (skewMs : ℤ) (now : Time) :
    EdgeOutboxOp → CloudDb × EdgeOpResult
  | .order key order => db.applyOrder device key order skewMs now
  | .kotStatus key clientId lines => db.applyKotStatus device key clientId lines now

/-- The skew of a device clock. -/
def clockSkewMs (serverNow : Time) (deviceTime : Stamp) : ℤ :=
  deviceTime.parse.elim 0 (serverNow - ·)

/-- Apply the operations of a batch one after another. -/
def pushOps (device : EdgeDeviceContext) (skewMs : ℤ) (now : Time) (db : CloudDb)
    (ops : List EdgeOutboxOp) : CloudDb × List EdgeOpResult :=
  ops.foldl (fun (db, results) op =>
    let (db, res) := db.applyOp device skewMs now op
    (db, results ++ [res])) (db, [])

/-- Apply a batch. -/
def push (db : CloudDb) (device : EdgeDeviceContext) (input : EdgePushInput) (now : Time) :
    CloudDb × List EdgeOpResult :=
  pushOps device (clockSkewMs now input.deviceTime) now db input.ops

section PushOps

variable (device : EdgeDeviceContext) (skewMs : ℤ) (now : Time) (db : CloudDb)

/-- The database after a batch is that after its operations, one after another. -/
theorem pushOps_fst (ops : List EdgeOutboxOp) :
    (pushOps device skewMs now db ops).1 =
      ops.foldl (fun db op => (db.applyOp device skewMs now op).1) db := by
  have hfst : ∀ (ops : List EdgeOutboxOp) (acc : CloudDb × List EdgeOpResult),
      (ops.foldl (fun (db, results) op =>
        let (db, res) := db.applyOp device skewMs now op
        (db, results ++ [res])) acc).1 =
      ops.foldl (fun db op => (db.applyOp device skewMs now op).1) acc.1 := by
    intro ops
    induction ops with
    | nil => exact fun _ => rfl
    | cons op ops ih => exact fun acc => ih _
  exact hfst ops (db, [])

theorem pushOps_nil : (pushOps device skewMs now db []).1 = db := rfl

theorem pushOps_cons (op : EdgeOutboxOp) (ops : List EdgeOutboxOp) :
    (pushOps device skewMs now db (op :: ops)).1 =
      (pushOps device skewMs now (db.applyOp device skewMs now op).1 ops).1 := by
  rw [pushOps_fst, pushOps_fst, List.foldl_cons]

theorem pushOps_append (ops ops' : List EdgeOutboxOp) :
    (pushOps device skewMs now db (ops ++ ops')).1 =
      (pushOps device skewMs now (pushOps device skewMs now db ops).1 ops').1 := by
  rw [pushOps_fst, pushOps_fst, pushOps_fst, List.foldl_append]

theorem pushOps_concat (ops : List EdgeOutboxOp) (op : EdgeOutboxOp) :
    (pushOps device skewMs now db (ops ++ [op])).1 =
      ((pushOps device skewMs now db ops).1.applyOp device skewMs now op).1 := by
  rw [pushOps_append, pushOps_cons, pushOps_nil]

end PushOps

end CloudDb

/-! ### A first outlet -/

section FirstOutlet

def sampleDevice : EdgeDeviceContext := ⟨"device", "tenant", "south", "terminal", "E01"⟩

/-- An outlet with a terminal, an open drawer, and a dosa made of batter. -/
def sampleCloud : CloudDb where
  orders := .empty
  orderItems := []
  kots := []
  payments := []
  cashSessions := [⟨"drawer", "tenant", "south", true⟩]
  cashMovements := []
  rawMaterials := ⟨[⟨"batter", "tenant", "south", 10⟩], List.nodup_singleton _⟩
  stockMovements := []
  coupons := .empty
  invoiceSeqs := []
  conflicts := []
  outlets := ⟨[⟨"south", 1, 1⟩], List.nodup_singleton _⟩
  edgeDevices := [⟨"device", "tenant", "south", "terminal", "E01"⟩]
  users := []
  tables := []
  items := [⟨"dosa", "tenant", "south", "Dosa", .ofRat (768 / 100), 12, [], [], none,
    [⟨"batter", .ofRat (1 / 4)⟩]⟩]
  combos := []

/-- The sale of one of an item for 8.60 in cash. -/
def sampleSale (itemId : String) : EdgeOrderInput where
  clientId := "00000000-0000-4000-8000-000000000000"
  orderType := .takeaway
  tableId := none
  customerName := none
  customerPhone := none
  deliveryAddress := none
  items := [⟨itemId, none, [], 1, none, .ofRat (768 / 100), 12, .pending, none⟩]
  combos := []
  status := .settled
  payments := [⟨.cash, .ofRat (860 / 100), none⟩]
  manualDiscount := 0
  couponCode := none
  couponDiscount := 0
  subtotal := .ofRat (768 / 100)
  taxAmount := .ofRat (92 / 100)
  total := .ofRat (860 / 100)
  billNo := some ⟨"E01", "2627", 1, "E01/2627/000001"⟩
  createdAt := .iso 1793000000000
  closedAt := .iso 1793000001000
  createdByStaffId := none
  closedByStaffId := none
  cancelReason := none

/-- A batch with the sale of one of an item. -/
def sampleBatch (itemId : String) : EdgePushInput where
  deviceTime := .iso 1793000002000
  ops := [.order (sampleSale itemId).clientId (sampleSale itemId)]

example : (CloudDb.push sampleCloud sampleDevice (sampleBatch "dosa") 1793000002000).2 =
    [⟨(sampleSale "dosa").clientId, .applied, some "c1", some "E01/2627/000001", [], none⟩] := by
  decide +kernel

end FirstOutlet

end StelloKitchens
