import StelloKitchens.Payments.Collections

/-!
# The requests on payments

What a settlement and a sale from a device do to the payment tables, and all requests on these as
one type. The requests run side by side, with their statements interleaved and the payment
gateway answering anything at any time; a process may stop for good anywhere.

## Main definitions

* `settleOrder`, `ingestSale` — payments taken for a bill, at the counter and on a device.
* `PaymentRequest`, `PaymentRequest.run` — the requests and their methods.
* `payments` — all requests side by side.
-/

namespace StelloKitchens.Payments

open Checked Tx Method
open Billing (BillStatus SettlePayment)

/-! ### Payments taken -/

/-- A settlement that has worked out its total: the payments taken for it. -/
structure SettlementInput where
  total : Amount
  nonneg : 0 ≤ total.scaled
  billNumber : String
  customerName : Option String
  customerPhone : Option String
  payments : List SettlePayment

/-- The rows of the payments of a bill. -/
def paymentRows (orderId : ℕ) (payments : List (Billing.SettleMode × Binary64)) :
    Except PaymentError (List OrderPayment) :=
  payments.mapM fun p => return ⟨orderId, p.1, ← store p.2⟩

/-- Store the payments of a bill. -/
def createPayments (orderId : ℕ) (payments : List (Billing.SettleMode × Binary64)) :
    PaymentTx Unit := do
  let rows ← paymentRows orderId payments
  update fun db => { db with payments := db.payments ++ rows }

/-- Record the cash that was paid for a bill, if there is any; the drawer it went in. -/
def recordSaleCash (outletId : String) (cash : Binary64) (billNumber : String) (orderId : ℕ) :
    PaymentTx (Option ℕ) :=
  if 0 < cash then recordCash outletId .sale cash none (some billNumber) (some orderId)
  else return none

/-- The bill once it is settled. -/
def Order.settle (o : Order) (input : SettlementInput) : Order :=
  { o with
    status := .settled
    total := input.total
    billNumber := some input.billNumber
    customerName := input.customerName.or o.customerName
    customerPhone := input.customerPhone.or o.customerPhone }

/-- Store what was paid for a bill and close it; the drawer its cash went in. -/
def recordSettlement (order : Order) (input : SettlementInput) : PaymentTx (Option ℕ) := do
  createPayments order.id (input.payments.map fun p => (p.mode, p.amount))
  let cashTaken := (input.payments.filter fun p => p.mode = .tender .cash).foldl
    (fun s p => s + p.amount) 0
  let sessionId ← recordSaleCash order.outletId cashTaken input.billNumber order.id
  update fun db => { db with
    orders := db.orders.modify (fun o => o.id = order.id) (·.settle input) fun _ => rfl }
  return sessionId

/-- Settle a bill: what the settlement does to the payment tables; the drawer its cash went in. -/
def settlePayments (user : AuthUser) (now : Time) (orderId : ℕ) (input : SettlementInput) :
    PaymentTx (Option ℕ) := do
  acquire (.order orderId)
  let row ← query fun db : PaymentsDb => (db.orders.find? orderId).filter fun o =>
    o.tenantId = user.tenantId
  let order ← require row (.notFound "Order not found")
  check (order.outletId ∈ user.outletIds) (.forbidden "No access to outlet")
  check (order.status = .opened) (.badRequest "Order is not open")
  let paid := fromPaise (input.payments.foldl (fun s p => s + toPaise p.amount) 0)
  check (toPaise paid = toPaise (N input.total)) (.badRequest ("Payments (" ++ toFixed2 paid ++
    ") must equal order total (" ++ toFixed2 (N input.total) ++ ")"))
  redeemGiftCardsTx user now order.outletId order.id <|
    (input.payments.filter fun p => p.mode = .giftCard).map fun p =>
      ⟨p.giftCardCode.getD "", p.amount, p.positive⟩
  recordSettlement order input

def settleOrder (user : AuthUser) (now : Time) (orderId : ℕ) (input : SettlementInput) :
    PaymentMethod Unit := do
  let _ ← atomically movementNote (settlePayments user now orderId input)

/-- A payment that the device schema accepts. -/
structure DevicePayment where
  mode : PaymentMode
  amount : Binary64
  positive : 0 < amount

/-- A sale from a device as it is stored. -/
structure DeviceSale where
  total : Amount
  nonneg : 0 ≤ total.scaled
  billNumber : String
  customerName : Option String
  customerPhone : Option String
  payments : List DevicePayment

/-- The bill of a sale from a device. -/
def DeviceSale.toOrder (sale : DeviceSale) (tenantId outletId : String) (id : ℕ) : Order :=
  ⟨id, tenantId, outletId, .settled, sale.total, some sale.billNumber, sale.customerName,
    sale.customerPhone⟩

/-- Store a settled sale from a device; the drawer its cash went in. -/
def ingestSale (tenantId outletId : String) (sale : DeviceSale) : PaymentTx (Option ℕ) := do
  let id ← draw
  update fun db => { db with orders := db.orders.put (sale.toOrder tenantId outletId id) }
  createPayments id (sale.payments.map fun p => (.tender p.mode, p.amount))
  let cash := (sale.payments.filter fun p => p.mode = .cash).foldl
    (fun s p => s + toPaise p.amount) 0
  if 0 < cash then
    recordCash outletId .sale (fromPaise cash) none (some sale.billNumber) (some id)
  else return none

/-! ### Requests -/

inductive PaymentRequest
  | settle (user : AuthUser) (now : Time) (orderId : ℕ) (input : SettlementInput)
  | ingest (tenantId outletId : String) (sale : DeviceSale)
  | refund (user : AuthUser) (now : Time) (outletId : String) (orderId : ℕ) (input : RefundInput)
      (code : String)
  | createCollect (user : AuthUser) (now : Time) (payee : Payee) (outletId : String)
      (orderId : ℕ) (input : GatewayCollectInput)
  | getCollect (user : AuthUser) (now : Time) (outletId : String) (id : ℕ)
  | cancelCollect (user : AuthUser) (outletId : String) (id : ℕ)
  | simulatePaid (user : AuthUser) (now : Time) (outletId : String) (id : ℕ)
  | webhook (now : Time) (delivery : RzpDelivery)
  | recoveryTick (now : Time)
  | reconcileRefund (user : AuthUser) (now : Time) (outletId : String) (refundId : ℕ)
  | openDrawer (user : AuthUser) (now : Time) (outletId : String) (openingFloat : Binary64)
  | closeDrawer (user : AuthUser) (now : Time) (outletId : String) (countedCash : Binary64)
  | addMovement (user : AuthUser) (outletId : String) (input : CashMovementInput)
  | createExpense (user : AuthUser) (outletId : String) (input : ExpenseInput)
  | voidExpense (user : AuthUser) (outletId : String) (id : ℕ) (reason : String)
  | giveAdvance (user : AuthUser) (outletId : String) (input : SalaryAdvanceInput)
  | issueGiftCard (user : AuthUser) (now : Time) (outletId code : String)
      (input : IssueGiftCardInput)
  | voidGiftCard (user : AuthUser) (id : ℕ) (reason : String)

/-- What a request that is no webhook answers does not matter here. -/
def quiet {α : Type} (x : PaymentMethod α) : PaymentMethod (Option String) := do
  let _ ← x
  return none

/-- The method of a request; the event that it acknowledges. -/
def PaymentRequest.run (gateway : Gateway) : PaymentRequest → PaymentMethod (Option String)
  | settle user now orderId input => quiet (settleOrder user now orderId input)
  | ingest tenantId outletId sale =>
    quiet (atomically movementNote (ingestSale tenantId outletId sale))
  | refund user now outletId orderId input code =>
    quiet (Payments.refund gateway user now outletId orderId input code)
  | createCollect user now payee outletId orderId input =>
    quiet (Payments.createCollect user now payee outletId orderId input)
  | getCollect user now outletId id => quiet (Payments.getCollect user now outletId id)
  | cancelCollect user outletId id => quiet (Payments.cancelCollect user outletId id)
  | simulatePaid user now outletId id =>
    quiet (Payments.simulatePaid gateway user now outletId id)
  | webhook now delivery => do return some (← handleRazorpayWebhook now delivery)
  | recoveryTick now => quiet (Payments.recoveryTick gateway now)
  | reconcileRefund user now outletId refundId =>
    quiet (reconcileRefundNow gateway user now outletId refundId)
  | openDrawer user now outletId openingFloat =>
    quiet (Payments.openDrawer user now outletId openingFloat)
  | closeDrawer user now outletId countedCash =>
    quiet (Payments.closeDrawer user now outletId countedCash)
  | addMovement user outletId input => quiet (Payments.addMovement user outletId input)
  | createExpense user outletId input => quiet (Payments.createExpense user outletId input)
  | voidExpense user outletId id reason => quiet (Payments.voidExpense user outletId id reason)
  | giveAdvance user outletId input => quiet (Payments.giveAdvance user outletId input)
  | issueGiftCard user now outletId code input =>
    quiet (Payments.issueGiftCard user now outletId code input)
  | voidGiftCard user id reason => quiet (Payments.voidGiftCard user id reason)

/-- Before the first refund, collection, drawer, expense and gift card: there may be bills, with
payments taken for them. -/
structure NoPayments (db : PaymentsDb) (next : ℕ) : Prop where
  drawn : ∀ o ∈ db.orders, o.id < next
  totals : ∀ o ∈ db.orders, 0 ≤ o.total.scaled
  payments : ∀ p ∈ db.payments, 0 ≤ p.amount.scaled
  known : ∀ p ∈ db.payments, ∃ o ∈ db.orders, o.id = p.orderId
  refunds : db.refunds = .empty
  gatewayPayments : db.gatewayPayments = .empty
  gatewayEvents : db.gatewayEvents = .empty
  applied : db.applied = []
  cashSessions : db.cashSessions = .empty
  cashMovements : db.cashMovements = .empty
  expenses : db.expenses = .empty
  giftCards : db.giftCards = .empty
  giftCardTxns : db.giftCardTxns = []

/-- The state of the payment services: the tables and the methods in progress. -/
abbrev PaymentsWorld :=
  World PaymentsDb LockKey Note ProviderCall ProviderReply (Except PaymentError (Option String))

/-- The requests side by side. -/
def payments (gateway : Gateway) : Machine PaymentsWorld (WorldAction PaymentRequest ProviderReply) :=
  serve (fun r => (r.run gateway).run) NoPayments

/-- The tables with some bills and nothing else. -/
def PaymentsDb.withOrders (orders : KeyedTable Order.id) (payments : List OrderPayment) :
    PaymentsDb :=
  ⟨orders, payments, .empty, .empty, .empty, [], .empty, .empty, .empty, .empty, []⟩

theorem noPayments_withOrders {orders : KeyedTable Order.id} {paid : List OrderPayment} {next : ℕ}
    (hdrawn : ∀ o ∈ orders, o.id < next ∧ 0 ≤ o.total.scaled)
    (hpaid : ∀ p ∈ paid, 0 ≤ p.amount.scaled ∧ ∃ o ∈ orders, o.id = p.orderId) :
    NoPayments (.withOrders orders paid) next :=
  ⟨fun o ho => (hdrawn o ho).1, fun o ho => (hdrawn o ho).2, fun p hp => (hpaid p hp).1,
    fun p hp => (hpaid p hp).2, rfl, rfl, rfl, rfl, rfl, rfl, rfl, rfl, rfl⟩

/-- The services start without a request in progress. -/
theorem reach_atRest {gateway : Gateway} {good : PaymentsWorld → _ → Prop} {db : PaymentsDb}
    {next : ℕ} (h : NoPayments db next) : (payments gateway).Reach good (.atRest db next) :=
  .init ⟨h, rfl, rfl⟩

/-! ### A bill to run requests on -/

theorem hundred_pos : (0 : Binary64) < 100 := by decide +kernel

/-- An open bill of a hundred rupees. -/
def openBill : PaymentsDb :=
  .withOrders (KeyedTable.empty.put
    ⟨0, "t", "o", .opened, .hundred, some "B1", none, none⟩) []

theorem noPayments_openBill : NoPayments openBill 1 :=
  noPayments_withOrders (by decide) (by decide)

/-- A collect request has asked the provider. -/
def collectRun : List (WorldAction PaymentRequest ProviderReply) :=
  [.start 0 (.createCollect ⟨"u", "t", ["o"]⟩ 0 ⟨none, "Stello"⟩ "o" 0 ⟨none, by simp, .qr, none⟩)] ++
    WorldAction.steps 0 4

/-- The webhook that reports the capture. -/
def captureDelivery : RzpDelivery :=
  let payment : RzpEntity := ⟨some "pay_1", some "captured", some 10000, none, none, some 1⟩
  ⟨true, some ⟨some "payment.captured", none, some payment, none, none⟩, some "evt_1"⟩

/-- The capture is reported before the provider answers. -/
def captureRun : List (WorldAction PaymentRequest ProviderReply) :=
  collectRun ++ [.start 1 (.webhook 0 captureDelivery)] ++ WorldAction.steps 1 20

/-- The provider has made the collection. -/
def answerRun : List (WorldAction PaymentRequest ProviderReply) :=
  [.reply 0 (.collect ⟨"qr_1", none, none, none, 0⟩)] ++ WorldAction.steps 0 5

end StelloKitchens.Payments
