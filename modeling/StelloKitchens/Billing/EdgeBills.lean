import StelloKitchens.Billing.OrderOps
import StelloKitchens.Billing.Settle
import StelloKitchens.Cloud.Sale
import StelloKitchens.Lib.Process

/-!
# Bills that devices bring in, and the outlet's bill series

A device brings in a closed sale with the number of its own invoice series. The sale is stored
under that number, or under one of the outlet's series if the device gives none, gives one that is
not its own, or gives one that is taken. A sale that is cancelled has no number.

The outlet's series is drawn from by the settlements at the counter, by synchronised orders and by
these sales, side by side.

## Main definitions

* `ingestEdgeBill` — a device's sale.
* `SeriesRequest`, `billSeries` — the requests that draw from the series, side by side.
-/

namespace StelloKitchens.Billing

open Checked Tx

/-- What a device's sale meets: the activation that had the series of the bill before this one, and
whether the items and combos are the outlet's. -/
structure EdgeSale where
  order : EdgeOrderInput
  schema : EdgeOrderSchema order
  formerOwner : Option String
  catalog : Except String Unit

/-- Lock the table of a dine-in sale; a sale whose table is gone is filed without one. -/
def lockSaleTable (outletId : String) (order : EdgeOrderInput) : BillingTx (Option String) :=
  match order.orderType, truthy order.tableId with
  | .dineIn, some tableId => do
    acquire (.table tableId)
    let table ← query fun db : BillingDb => db.tables.find? tableId
    return if table.any (·.outletId = outletId) then some tableId else none
  | _, _ => return none

/-- Count the coupon of a settled sale, which is honoured in any case. -/
def countSaleCoupon (outletId : String) (order : EdgeOrderInput) : BillingTx (Option String) :=
  match truthy order.couponCode with
  | none => return none
  | some code => do
    let found ← query fun db : BillingDb =>
      db.coupons.rows.find? fun c => c.outletId = outletId ∧ c.code = code.toUpper
    found.forM fun c => acquire (.coupon c.id)
    let coupon ← query fun db : BillingDb => found.bind fun c => db.coupons.find? c.id
    (coupon.filter fun _ => order.status = .settled).forM fun c => countCoupon c.id
    return some code.toUpper

/-- The number of a bill and its place in a device's series. -/
abbrev InvoiceNumber := Option String × Option EdgeInvoice

/-- The number that a device gave its bill, if it is of the device's series and not taken. -/
def deviceNumber (device : EdgeDeviceContext) (sale : EdgeSale) :
    BillingTx (Option EdgeInvoice) :=
  match sale.order.billNo with
  | none => return none
  | some b => do
    let owner := if b.series = device.seriesCode then some device.edgeDeviceId else sale.formerOwner
    match owner, formatEdgeBillNumber b.series b.fy b.seq with
    | some owner, .ok expected =>
      if expected ≠ b.number then return none
      else do
        let taken ← query fun db : BillingDb => db.edgeInvoices.any fun i =>
          (i.edgeDeviceId = owner ∧ i.fiscalYear = b.fy ∧ i.seq = b.seq) ∨
            (i.outletId = device.outletId ∧ i.billNumber = b.number)
        return if taken then none else some ⟨device.outletId, owner, b.fy, b.seq, b.number⟩
    | _, _ => return none

/-- The number of a settled sale: the device's, or else one of the outlet's. -/
def saleNumber (device : EdgeDeviceContext) (sale : EdgeSale) : BillingTx InvoiceNumber := do
  if sale.order.status = .settled then
    let invoice ← deviceNumber device sale
    match invoice with
    | some i => return (some i.billNumber, some i)
    | none => do
      let number ← nextBillNumber device.outletId
      return (some ("B-" ++ toString number), none)
  else return (none, none)

/-- Enter the number of a device's invoice, which has to be free. -/
def enterInvoice (i : EdgeInvoice) : BillingTx Unit := do
  -- the unique keys make a second insert wait for the first and then fail
  acquire (.invoice i.outletId i.billNumber)
  let taken ← query fun db : BillingDb => db.edgeInvoices.any fun j =>
    (j.edgeDeviceId = i.edgeDeviceId ∧ j.fiscalYear = i.fiscalYear ∧ j.seq = i.seq) ∨
      (j.outletId = i.outletId ∧ j.billNumber = i.billNumber)
  check (taken = false) .p2002
  update fun db => { db with edgeInvoices := db.edgeInvoices ++ [i] }

/-- The figures of a device's sale, which has neither service charge nor round-off. -/
def saleFigures (totals : OrderTotals) : Except BillingError OrderFigures :=
  return { OrderFigures.zero with
    subtotal := ← store totals.subtotal
    discountAmount := ← store totals.discountAmount
    taxAmount := ← store totals.taxAmount
    total := ← store totals.total }

/-- The bill of a device's sale. -/
def saleOrder (id : RowId) (device : EdgeDeviceContext) (order : EdgeOrderInput)
    (tableId couponCode billNumber : Option String) (figures : OrderFigures) : Order :=
  { newOrder id device.outletId order.orderType tableId order.customerName order.customerPhone with
    status := syncedStatus order.status
    couponCode := couponCode
    syncKey := some (device.terminalId, order.clientId)
    billNumber := billNumber
    figures := figures }

/-- Store a device's sale with its ticket, its invoice and its payments. -/
def insertSale (device : EdgeDeviceContext) (sale : EdgeSale) : BillingTx Unit := do
  let order := sale.order
  let tableId ← lockSaleTable device.outletId order
  let totals ← (checkFigures order).mapError BillingError.rejectOp
  let couponCode ← countSaleCoupon device.outletId order
  let (billNumber, invoice) ← saleNumber device sale
  let figures ← saleFigures totals
  acquire (.syncKey device.terminalId order.clientId)
  let taken ← query fun db : BillingDb =>
    db.orders.rows.any fun o => o.syncKey = some (device.terminalId, order.clientId)
  check (taken = false) .p2002
  let stamp ← draw
  let id : RowId := ⟨stamp, 0⟩
  update fun db => db.insertOrder (saleOrder id device order tableId couponCode billNumber figures)
  let number ← nextKotNumber device.outletId
  update fun db => db.insertKot ⟨id, device.outletId, id, number⟩
  sale.catalog.mapError BillingError.rejectOp
  invoice.forM enterInvoice
  let payments ← order.payments.mapM fun p =>
    return (⟨id, .tender p.mode, ← store p.amount⟩ : OrderPayment)
  update fun db => { db with
    payments := db.payments ++ if order.status = .settled then payments else [] }

/-- Store a device's sale, unless it is there already. -/
def ingestEdgeBill (device : EdgeDeviceContext) (sale : EdgeSale) : BillingTx Unit := do
  let existing ← query fun db : BillingDb => db.orders.rows.any fun o =>
    o.outletId = device.outletId ∧ o.syncKey = some (device.terminalId, sale.order.clientId)
  if existing then return ()
  else insertSale device sale

/-! ### The requests that draw from the series -/

inductive SeriesRequest
  | settle (user : AuthUser) (now : Time) (orderId : RowId) (input : SettleOrderInput)
  | applySyncedOrder (menu : Menu) (outletId deviceId : String) (order : SyncedOrderInput)
  | ingestEdgeBill (device : EdgeDeviceContext) (sale : EdgeSale)

/-- The transaction of a request. -/
def SeriesRequest.run : SeriesRequest → BillingTx Unit
  | settle user now orderId input => (fun _ => ()) <$> Billing.settle user now orderId input
  | applySyncedOrder menu outletId deviceId order =>
    Billing.applySyncedOrder menu outletId deviceId order
  | ingestEdgeBill device sale => Billing.ingestEdgeBill device sale

/-- Before the first bill is closed: no order has a number, and the outlets count from 1. -/
structure NoNumbers (db : BillingDb) (n : ℕ) : Prop where
  orders : ∀ o ∈ db.orders, o.billNumber = none ∧ o.id.stamp < n
  outlets : ∀ o ∈ db.outlets, o.nextBillNumber = 1

/-- The requests side by side. -/
def billSeries : Machine (World BillingDb LockKey Unit Empty Empty (Except BillingError Unit))
    (WorldAction SeriesRequest Empty) :=
  serve (fun r => .transaction (fun _ => ()) r.run) NoNumbers

end StelloKitchens.Billing
