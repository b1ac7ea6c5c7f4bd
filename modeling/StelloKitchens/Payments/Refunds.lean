import StelloKitchens.Payments.GiftCards

/-!
# Refunds

A refund is reserved against what was paid for the bill, under the lock of the bill; one in cash
or store credit is complete with that. Any other is then asked of the payment gateway, outside of
the transaction, and what the gateway answers, or that nothing is known of its answer, is written
to the refund when the call is over.

## Main definitions

* `refundStatusOf` — the provider's status of a refund as ours.
* `reserveRefund` — reserve the balance.
* `refund` — the request.
-/

namespace StelloKitchens.Payments

open Checked Tx Method
open Billing (SettleMode)

/-- The provider's status of a refund as ours; only a verified failure releases balance. -/
def refundStatusOf (s : String) : RefundStatus :=
  if s = "processed" then .processed else if s = "failed" then .failed else .pending

/-- Ask the gateway for a refund. -/
def gatewayRefund (amount : Binary64) (orderRef : String) (reason : Option String)
    (idempotencyKey : ℕ) (paymentId : Option String) : PaymentMethod RefundResult := do
  match ← ask (.refund amount orderRef reason idempotencyKey paymentId) with
  | .refund result => return result
  | .failed uncertain => throw (.provider uncertain)
  | _ => throw (.provider true)

/-- What the refund schema accepts. -/
structure RefundInput where
  amount : Binary64
  positive : 0 < amount
  cents : IsMultipleOfCent amount
  mode : SettleMode
  reason : Option String
  requestKey : Option String

/-- Positive whole paise, as far as doubles can say. -/
def IsWholePaise (amount : Binary64) : Prop :=
  0 < amount ∧ max (amount * 100 - (amount * 100).nearestInt)
    (-(amount * 100 - (amount * 100).nearestInt)) ≤ .ofRat (1 / 10 ^ 7)

instance (amount : Binary64) : Decidable (IsWholePaise amount) :=
  inferInstanceAs (Decidable (_ ∧ _))

/-- The refund is complete without the gateway. -/
def RefundInput.immediate (input : RefundInput) : Bool :=
  input.mode = .tender .cash ∨ input.mode = .giftCard

/-- The captured payments of a bill, oldest first. -/
def capturedPayments (db : PaymentsDb) (order : Order) : List GatewayPayment :=
  (db.gatewayPayments.rows.filter fun g => g.tenantId = order.tenantId ∧
    g.outletId = order.outletId ∧ g.orderId = order.id ∧ g.status = .paid ∧
    g.paymentId ≠ none).insertionSort fun a b => a.paidAt.getD 0 ≤ b.paidAt.getD 0

/-- The first captured payment with enough of it not yet refunded. -/
def drawFrom (amount : Binary64) : List GatewayPayment → PaymentTx (Option ℕ)
  | [] => return none
  | g :: rest => do
    let used ← query fun db : PaymentsDb => sumAmounts <|
      (db.refunds.rows.filter fun r => r.gatewayPaymentId = some g.id ∧ r.status ≠ .failed).map
        (·.amount)
    if toPaise amount ≤ toPaise (N g.amount) - toPaise used then return some g.id
    else drawFrom amount rest

/-- The captured payment that a refund draws from, if it goes to the gateway. -/
def refundSource (order : Order) (input : RefundInput) : PaymentTx (Option ℕ) :=
  if input.immediate then return none
  else do
    let captured ← query fun db : PaymentsDb => capturedPayments db order
    drawFrom input.amount captured

/-- The status that a refund starts with. -/
def initialStatus (gateway : Gateway) (input : RefundInput) (source : Option ℕ) : RefundStatus :=
  if input.immediate then .processed
  else if gateway.live ∧ source = none then .manual else .pending

/-- A reservation: a new one, or that of the same request before. -/
structure Reserved where
  refund : Refund
  isNew : Bool
  orderRef : String
  /-- The drawer that the cash was taken from. -/
  sessionId : Option ℕ

/-- The refund of the bill that was requested under the same key. -/
def sameRequest (db : PaymentsDb) (order : Order) (requestKey : Option String) : Option Refund :=
  (truthy requestKey).bind fun key => db.refunds.rows.find? fun r =>
    r.tenantId = order.tenantId ∧ r.outletId = order.outletId ∧ r.orderId = order.id ∧
      r.requestKey = some key

/-- Hand out the store credit or the cash that a refund is paid in; the drawer of the cash. -/
def payRefund (user : AuthUser) (order : Order) (input : RefundInput) (code : String) :
    PaymentTx (Option ℕ) := do
  whenever (input.mode = .giftCard) <| issueStoreCreditTx user order.outletId code input.amount
    order.id (input.reason.getD ("Refund for " ++ order.billNumber.getD (toString order.id)))
    order.customerPhone order.customerName
  if input.mode = .tender .cash then
    recordCash order.outletId .refund (-input.amount) none (some (input.reason.getD "Refund"))
      (some order.id)
  else return none

/-- The balance of a bill allows for a refund. -/
def checkRefundable (order : Order) (input : RefundInput) : PaymentTx Unit := do
  let previous ← query fun db : PaymentsDb => sumAmounts ((db.reservedRefunds order).map (·.amount))
  let recorded ← query fun db : PaymentsDb => sumAmounts ((db.paymentsOf order.id).map (·.amount))
  let limit := min (toPaise (N order.total)) (toPaise recorded)
  check (toPaise previous + toPaise input.amount ≤ limit)
    (.badRequest "Refund exceeds the remaining refundable balance")

/-- The refund that is reserved for a request. -/
def reservation (gateway : Gateway) (user : AuthUser) (now : Time) (outletId : String)
    (orderId : ℕ) (input : RefundInput) (code : String) (source : Option ℕ) (amount : Amount)
    (id : ℕ) : Refund :=
  ⟨id, user.tenantId, outletId, orderId, amount, input.mode, input.reason,
    if input.mode = .giftCard then some code else none, initialStatus gateway input source,
    input.requestKey, source, now, none⟩

/-- Reserve the balance of a refund, and complete it if it is in cash or store credit. -/
def reserveRefund (gateway : Gateway) (user : AuthUser) (now : Time) (outletId : String)
    (orderId : ℕ) (input : RefundInput) (code : String) : PaymentTx Reserved := do
  acquire (.order orderId)
  let row ← query fun db : PaymentsDb => (db.orders.find? orderId).filter fun o =>
    o.tenantId = user.tenantId ∧ o.outletId = outletId
  let order ← require row (.notFound "Order not found")
  check (order.status = .settled) (.badRequest "Only settled orders can be refunded")
  let orderRef := order.billNumber.getD (toString order.id)
  match ← query fun db : PaymentsDb => sameRequest db order input.requestKey with
  | some existing => do
    check (toPaise (N existing.amount) = toPaise input.amount ∧ existing.mode = input.mode ∧
      existing.reason = input.reason)
      (.badRequest "Refund request key was already used for different details")
    return ⟨existing, false, orderRef, none⟩
  | none => do
    checkRefundable order input
    let source ← refundSource order input
    let amount ← store input.amount
    let id ← draw
    let refund := reservation gateway user now outletId orderId input code source amount id
    update fun db => { db with refunds := db.refunds.put refund }
    let sessionId ← payRefund user order input code
    return ⟨refund, true, orderRef, sessionId⟩

/-- The refund after the provider call. -/
def Refund.complete (r : Refund) (gatewayRef : Option String) (status : RefundStatus) : Refund :=
  { r with gatewayRef := gatewayRef.or r.gatewayRef, status := status }

/-- Write the outcome of the provider call to the refund, whatever it has become. -/
def completeRefund (id : ℕ) (gatewayRef : Option String) (status : RefundStatus) :
    PaymentMethod Refund :=
  atomically (fun _ => .completion id status) do
    acquire (.refund id)
    update fun db => db.updateRefund id (·.complete gatewayRef status) fun _ => rfl
    let row ← query fun db : PaymentsDb => db.refunds.find? id
    require row .database

/-- Ask the gateway for a refund that was reserved for it, and write what is heard. -/
def submitRefund (input : RefundInput) (reserved : Reserved) : PaymentMethod Refund :=
  if reserved.isNew ∧ reserved.refund.status = .pending then
    let refund := reserved.refund
    tryCatch (do
      let paymentId ← look fun db => (refund.gatewayPaymentId.bind db.gatewayPayments.find?).bind
        (·.paymentId)
      let res ← gatewayRefund input.amount reserved.orderRef input.reason refund.id paymentId
      completeRefund refund.id (some res.ref) (refundStatusOf res.status))
      fun _ => completeRefund refund.id none .unknown
  else return reserved.refund

/-- Refund an order; `code` is the one drawn at random should it be in store credit. -/
def refund (gateway : Gateway) (user : AuthUser) (now : Time) (outletId : String) (orderId : ℕ)
    (input : RefundInput) (code : String) : PaymentMethod (ℕ × Option String × RefundStatus) := do
  assertOutlet user outletId
  guardOr (IsWholePaise input.amount) (.badRequest "Refund amount must be positive whole paise")
  let reserved ← atomically (fun r : Reserved => movementNote r.sessionId)
    (reserveRefund gateway user now outletId orderId input code)
  let result ← submitRefund input reserved
  return (result.id, result.gatewayRef, result.status)

end StelloKitchens.Payments
