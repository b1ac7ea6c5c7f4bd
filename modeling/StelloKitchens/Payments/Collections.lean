import StelloKitchens.Payments.Refunds

/-!
# Collections at the payment gateway

A bill is collected through a QR code or a payment link of the gateway. The collection is stored
first, then the gateway is asked, and what it answers is saved; the capture is reported by
webhook, or found by polling. Webhooks are recorded under the provider's id of the event before
they are applied, and a recovery worker looks after collections and refunds that hear nothing.

## Main definitions

* `createCollect`, `cancelCollect`, `getCollect`, `simulatePaid` — what staff asks for.
* `markPaid` — a capture.
* `handleRazorpayWebhook`, `applyEvent` — what the provider reports.
* `reconcileRefund`, `refreshCollect`, `recoveryTick` — what the recovery worker does.
-/

namespace StelloKitchens.Payments

open Checked Tx Method
open Billing (BillStatus)

/-! ### Calls to the gateway -/

def gatewayCreateCollect (request : CollectRequest) : PaymentMethod CollectResult := do
  match ← ask (.createCollect request) with
  | .collect result => return result
  | .failed uncertain => throw (.provider uncertain)
  | _ => throw (.provider true)

def gatewayFindRefund (paymentId : String) (idempotencyKey : ℕ) :
    PaymentMethod (Option RefundResult) := do
  match ← ask (.findRefund paymentId idempotencyKey) with
  | .foundRefund result => return result
  | .failed uncertain => throw (.provider uncertain)
  | _ => throw (.provider true)

def gatewayFetchStatus (kind : CollectKind) (providerRef : String) :
    PaymentMethod CollectStatus := do
  match ← ask (.fetchCollectStatus kind providerRef) with
  | .status result => return result
  | .failed uncertain => throw (.provider uncertain)
  | _ => throw (.provider true)

/-- Ask the gateway to close a collection; its failure does not matter. -/
def gatewayCancel (kind : CollectKind) (providerRef : String) : PaymentMethod Unit := do
  let _ ← ask (.cancelCollect kind providerRef)

/-! ### Asking for a collection -/

/-- What the collect schema accepts, with the kind that the environment defaults to. -/
structure GatewayCollectInput where
  amount : Option Binary64
  positive : ∀ a ∈ amount, 0 < a
  kind : CollectKind
  customerPhone : Option String

/-- Who is paid at an outlet. -/
structure Payee where
  upiVpa : Option String
  name : String

/-- How long a collection can be paid, in milliseconds. -/
def CollectKind.ttl : CollectKind → Time
  | qr => 900000
  | link => 1800000

/-- Insert the collection; its id travels to the gateway. -/
def createIntent (user : AuthUser) (now : Time) (outletId : String) (orderId : ℕ)
    (input : GatewayCollectInput) (amount : Binary64) : PaymentTx ℕ := do
  let stored ← store amount
  let id ← draw
  update fun db => { db with
    gatewayPayments := db.gatewayPayments.put ⟨id, user.tenantId, outletId, orderId, input.kind,
      stored, .created, none, none, none, none, none, some (now + input.kind.ttl), none, now⟩ }
  return id

/-- Save what the gateway answered. -/
def saveCollect (id : ℕ) (res : CollectResult) : PaymentTx GatewayPayment := do
  acquire (.collection id)
  update fun db => db.updateCollection id (fun g => { g with
    providerRef := some res.providerRef
    imageUrl := res.imageUrl
    shortUrl := res.shortUrl
    upiString := res.upiString
    expiresAt := some res.expiresAt }) fun _ => rfl
  let row ← query fun db : PaymentsDb => db.gatewayPayments.find? id
  require row .database

/-- Write that the gateway made no collection, whatever it has become. -/
def failCollect (id : ℕ) : PaymentMethod Unit :=
  atomically (fun _ => .collectFailed id) do
    acquire (.collection id)
    update fun db => db.updateCollection id (fun g => { g with status := .failed }) fun _ => rfl

def createCollect (user : AuthUser) (now : Time) (payee : Payee) (outletId : String) (orderId : ℕ)
    (input : GatewayCollectInput) : PaymentMethod GatewayPayment := do
  assertOutlet user outletId
  let found ← look fun db => (db.orders.find? orderId).filter fun o =>
    o.tenantId = user.tenantId ∧ o.outletId = outletId
  let order ← getOr found (.notFound "Order not found")
  guardOr (order.status = .opened) (.badRequest "Only open bills can be collected")
  let amount := input.amount.getD (N order.total)
  guardOr (0 < toPaise amount) (.badRequest "Nothing to collect")
  guardOr (toPaise amount ≤ toPaise (N order.total))
    (.badRequest "Amount exceeds the bill total")
  let id ← autocommit (createIntent user now outletId orderId input amount)
  let billRef := order.billNumber.getD (toString order.id)
  tryCatch (do
    let res ← gatewayCreateCollect {
      kind := input.kind
      amount
      intentId := id
      orderRef := billRef
      description := payee.name ++ " bill " ++ billRef
      expiresAt := now + input.kind.ttl
      customerPhone := input.customerPhone.or order.customerPhone
      payeeVpa := payee.upiVpa.getD "merchant@upi"
      payeeName := payee.name }
    autocommit (saveCollect id res))
    fun _ => do
      failCollect id
      throw (.badGateway
        "Payment gateway did not create the QR — use another payment mode or retry")

/-! ### Captures -/

/-- What learned of a capture. -/
inductive CaptureSource
  | webhook (eventId : String)
  | recovery
  | simulator

/-- The record of an event that has been applied. -/
def PaymentsDb.recordEffect (db : PaymentsDb) (eventId : String) (effect : Effect) : PaymentsDb :=
  { db with applied := db.applied ++ [⟨eventId, effect⟩] }

/-- Record what a webhook did. -/
def CaptureSource.record (source : CaptureSource) (effect : Effect) (db : PaymentsDb) :
    PaymentsDb :=
  match source with
  | webhook eventId => db.recordEffect eventId effect
  | _ => db

/-- If an amount is told, it is the collection's. -/
def sameAmount (amountPaise : Binary64) (g : GatewayPayment) : Prop :=
  amountPaise = 0 ∨ amountPaise = toPaise (N g.amount)

instance (amountPaise : Binary64) (g : GatewayPayment) : Decidable (sameAmount amountPaise g) :=
  inferInstanceAs (Decidable (_ ∨ _))

/-- The collection is paid for with this payment. -/
def GatewayPayment.capture (g : GatewayPayment) (now : Time) (paymentId : String) :
    GatewayPayment :=
  { g with status := .paid, paymentId := some paymentId, paidAt := some now }

/-- Capture a collection unless it is paid already; whether it was captured. -/
def captureCollection (now : Time) (id : ℕ) (paymentId : String) (source : CaptureSource) :
    PaymentTx Bool :=
  updateWhere (.collection id)
    (fun db => (db.gatewayPayments.find? id).any fun g => g.status ≠ .paid)
    fun db => source.record (.captured id paymentId)
      (db.updateCollection id (·.capture now paymentId) fun _ => rfl)

/-- Capture a collection that is not paid yet; what came of it. -/
def markPaid (now : Time) (id : ℕ) (paymentId : String) (amountPaise : Binary64)
    (source : CaptureSource) : PaymentMethod String := do
  match ← look fun db => db.gatewayPayments.find? id with
  | none => return "ignored:unknown-intent"
  | some g =>
    if g.status = .paid then
      return if g.paymentId = some paymentId then "paid:duplicate" else "paid:second-payment"
    else if ¬sameAmount amountPaise g then return "mismatch"
    else do
      let captured ← autocommit (captureCollection now id paymentId source)
      return if captured then "paid" else "paid:duplicate"

/-! ### Polling and cancelling -/

/-- Move a collection that is still open to another status; whether it was. -/
def leaveCreated (id : ℕ) (status : CollectionStatus) : PaymentTx Bool :=
  updateWhere (.collection id)
    (fun db => (db.gatewayPayments.find? id).any fun g => g.status = .created)
    fun db => db.updateCollection id (fun g => { g with status := status }) fun _ => rfl

/-- Poll a collection, and let it expire past its deadline; whether it has changed. -/
def refreshCollect (now : Time) (g : GatewayPayment) : PaymentMethod Bool := do
  match truthy g.providerRef with
  | none => return false
  | some providerRef => do
    let st ← gatewayFetchStatus g.kind providerRef
    match (truthy st.paymentId).filter fun _ => st.status = .paid with
    | some paymentId => do
      let outcome ← markPaid now g.id paymentId (st.amountPaise.getD 0) .recovery
      return outcome = "paid"
    | none => do
      let pastDue := g.expiresAt.any fun t => t + 60000 < now
      if st.status = .expired ∨ st.status = .cancelled ∨ pastDue then do
        if pastDue ∧ st.status = .pending then gatewayCancel g.kind providerRef
        autocommit <| leaveCreated g.id (if st.status = .cancelled then .cancelled else .expired)
      else return false

/-- The collection of an outlet. -/
def requireCollect (user : AuthUser) (outletId : String) (id : ℕ) :
    PaymentMethod GatewayPayment := do
  assertOutlet user outletId
  let found ← look fun db => (db.gatewayPayments.find? id).filter fun g =>
    g.tenantId = user.tenantId ∧ g.outletId = outletId
  getOr found (.notFound "Collection not found")

/-- The collection as it is now. -/
def currentCollect (id : ℕ) : PaymentMethod GatewayPayment := do
  let found ← look fun db => db.gatewayPayments.find? id
  getOr found .database

def getCollect (user : AuthUser) (now : Time) (outletId : String) (id : ℕ) :
    PaymentMethod GatewayPayment := do
  let g ← requireCollect user outletId id
  if g.status = .created ∧ (truthy g.providerRef).isSome ∧ 10000 < now - g.createdAt then do
    let _ ← tryCatch (refreshCollect now g) fun _ => pure false
    currentCollect id
  else return g

def cancelCollect (user : AuthUser) (outletId : String) (id : ℕ) :
    PaymentMethod GatewayPayment := do
  let g ← requireCollect user outletId id
  let cancelled ← autocommit (leaveCreated id .cancelled)
  match (truthy g.providerRef).filter fun _ => cancelled with
  | some providerRef => gatewayCancel g.kind providerRef
  | none => pure ()
  currentCollect id

/-- Take a simulated collection as paid; only where no money moves. -/
def simulatePaid (gateway : Gateway) (user : AuthUser) (now : Time) (outletId : String) (id : ℕ) :
    PaymentMethod GatewayPayment := do
  assertOutlet user outletId
  guardOr (gateway.live = false ∧ gateway.production = false)
    (.forbidden "Simulation is disabled")
  let g ← requireCollect user outletId id
  guardOr ((truthy g.providerRef).isSome) (.notFound "Collection not found")
  let _ ← markPaid now g.id ("pay_sim_" ++ toString g.id) (toPaise (N g.amount)) .simulator
  currentCollect id

/-! ### Webhooks -/

/-- What is read of an entity in a webhook. -/
structure RzpEntity where
  id : Option String
  status : Option String
  amount : Option Binary64
  /-- A refund's receipt, which is our id of it. -/
  receipt : Option ℕ
  /-- A link's reference, which is our id of the collection. -/
  referenceId : Option ℕ
  /-- Our id of the collection, in the notes. -/
  noteIntentId : Option ℕ

structure RzpWebhook where
  event : Option String
  refund : Option RzpEntity
  payment : Option RzpEntity
  qrCode : Option RzpEntity
  paymentLink : Option RzpEntity

/-- A delivery, with the verdict on its signature and its body if that is JSON. -/
structure RzpDelivery where
  verified : Bool
  body : Option RzpWebhook
  eventIdHeader : Option String

def RzpWebhook.name (body : RzpWebhook) : String := body.event.getD "unknown"

/-- The id under which a delivery is recorded. -/
def RzpDelivery.eventId (d : RzpDelivery) (body : RzpWebhook) : String :=
  (truthy d.eventIdHeader).getD (body.name ++ ":" ++
    (((body.refund.bind (·.id)).or (body.payment.bind (·.id))).getD ""))

/-- Record a delivery, unless its event is recorded already. -/
def recordEvent (eventId event : String) : PaymentTx Bool := do
  acquire (.event eventId)
  match ← query fun db : PaymentsDb => db.gatewayEvents.find? eventId with
  | some _ => return false
  | none => do
    let id ← draw
    update fun db => { db with
      gatewayEvents := db.gatewayEvents.put ⟨id, eventId, event, none, none⟩ }
    return true

/-- The collection that a payment event is about. -/
def collectionOf (db : PaymentsDb) (body : RzpWebhook) : Option GatewayPayment :=
  let intentId := (((body.qrCode.bind (·.noteIntentId)).or
    (body.paymentLink.bind (·.referenceId))).or (body.paymentLink.bind (·.noteIntentId))).or
    (body.payment.bind (·.noteIntentId))
  match intentId with
  | some id => db.gatewayPayments.find? id
  | none => (truthy ((body.qrCode.bind (·.id)).or (body.paymentLink.bind (·.id)))).bind fun ref =>
      db.gatewayPayments.rows.find? fun g => g.providerRef = some ref

/-- The refund that a refund event is about. -/
def refundOf (db : PaymentsDb) (ref : String) (receipt : Option ℕ) : Option Refund :=
  db.refunds.rows.find? fun r => r.gatewayRef = some ref ∨ some r.id = receipt

/-- The status that a refund event reports. -/
def reportedStatus (event : String) (entity : RzpEntity) : RefundStatus :=
  refundStatusOf (if event = "refund.failed" then "failed"
    else if event = "refund.processed" then "processed" else entity.status.getD "pending")

/-- The refund waits for the provider. -/
def Refund.waiting (r : Refund) : Bool := r.status = .pending ∨ r.status = .unknown

/-- What learned of the status of a refund. -/
inductive RefundSource
  | webhook (eventId : String)
  | recovery

/-- Record what a webhook did. -/
def RefundSource.record (source : RefundSource) (effect : Effect) (db : PaymentsDb) : PaymentsDb :=
  match source with
  | webhook eventId => db.recordEffect eventId effect
  | recovery => db

/-- The refund as the provider reports it. -/
def Refund.reconcile (r : Refund) (now : Time) (ref : String) (status : RefundStatus) : Refund :=
  { r with status := status, gatewayRef := some ref, reconciledAt := some now }

/-- Write what is heard of a refund, if it waits for that; whether it did. -/
def settleRefund (now : Time) (id : ℕ) (ref : String) (status : RefundStatus)
    (source : RefundSource) : PaymentTx Bool :=
  updateWhere (.refund id) (fun db => (db.refunds.find? id).any (·.waiting))
    fun db => source.record (.reconciled id status)
      (db.updateRefund id (·.reconcile now ref status) fun _ => rfl)

/-- The outcome of a refund event that has changed the refund. -/
def RefundStatus.outcome : RefundStatus → String
  | .processed => "refund:PROCESSED"
  | .failed => "refund:FAILED"
  | .pending => "refund:PENDING"
  | .unknown => "refund:UNKNOWN"
  | .manual => "refund:MANUAL"

/-- Apply a recorded event; its outcome, and whether it changed a row. -/
def applyEvent (now : Time) (eventId : String) (body : RzpWebhook) :
    PaymentMethod (String × Bool) := do
  let event := body.name
  if event = "qr_code.credited" ∨ event = "payment_link.paid" ∨ event = "payment.captured" then
    match body.payment.bind fun p => (truthy p.id).map fun id => (p, id) with
    | none => return ("ignored:no-payment", false)
    | some (payment, paymentId) =>
      match (truthy payment.status).filter (· ≠ "captured") with
      | some status => return ("ignored:" ++ status, false)
      | none => do
        match ← look fun db => collectionOf db body with
        | none => return ("ignored:unknown-intent", false)
        | some g => do
          let outcome ← markPaid now g.id paymentId (payment.amount.getD 0) (.webhook eventId)
          return (outcome, outcome = "paid")
  else if event.startsWith "refund." then
    match body.refund.bind fun r => (truthy r.id).map fun id => (r, id) with
    | none => return ("ignored:no-refund", false)
    | some (entity, ref) => do
      match ← look fun db => refundOf db ref entity.receipt with
      | none => return ("ignored:unknown-refund", false)
      | some r => do
        let status := reportedStatus event entity
        let changed ← autocommit (settleRefund now r.id ref status (.webhook eventId))
        return (if changed then status.outcome else "refund:no-change", changed)
  else return ("ignored:event", false)

/-- An event that is processed. -/
def GatewayEvent.process (e : GatewayEvent) (now : Time) (outcome : String) : GatewayEvent :=
  { e with outcome := some outcome, processedAt := some now }

/-- Note the outcome on the event. -/
def finishEvent (now : Time) (eventId outcome : String) (changed : Bool) : PaymentTx Unit := do
  acquire (.event eventId)
  update fun db =>
    let db := if changed then db else db.recordEffect eventId (.nothing outcome)
    { db with
      gatewayEvents := db.gatewayEvents.modify (fun e => e.eventId = eventId)
        (·.process now outcome) fun _ => rfl }

/-- Handle a webhook delivery; the event it acknowledges. -/
def handleRazorpayWebhook (now : Time) (d : RzpDelivery) : PaymentMethod String := do
  guardOr (d.verified = true) (.unauthorized "Invalid webhook signature")
  let body ← getOr d.body (.badRequest "Malformed webhook body")
  let eventId := d.eventId body
  let new ← atomically (fun new => if new then .plain else .redelivery eventId)
    (recordEvent eventId body.name)
  if new then do
    let (outcome, changed) ← applyEvent now eventId body
    autocommit (finishEvent now eventId outcome changed)
  return eventId

/-! ### Recovery -/

/-- Look a refund up at the provider, and submit it if the provider has never seen it. -/
def resubmitRefund (r : Refund) (paymentId : Option String) : PaymentMethod RefundResult := do
  match ← gatewayFindRefund (paymentId.getD "") r.id with
  | some res => return res
  | none => do
    let order ← look fun db => db.orders.find? r.orderId
    gatewayRefund (N r.amount) ((order.bind (·.billNumber)).getD (toString r.orderId)) r.reason
      r.id paymentId

/-- Keep a refund reserved of which the provider may have heard. -/
def markUncertain (id : ℕ) : PaymentTx Bool :=
  updateWhere (.refund id)
    (fun db => (db.refunds.find? id).any fun r => r.status = .pending)
    fun db => db.updateRefund id (fun r => { r with status := .unknown }) fun _ => rfl

/-- Resolve a refund against the provider; whether its status has changed. -/
def reconcileRefund (gateway : Gateway) (now : Time) (refundId : ℕ) : PaymentMethod Bool := do
  match ← look fun db => (db.refunds.find? refundId).filter (·.waiting) with
  | none => return false
  | some r => do
    let captured ← look fun db => r.gatewayPaymentId.bind db.gatewayPayments.find?
    let paymentId := truthy (captured.bind (·.paymentId))
    if gateway.live ∧ paymentId = none then return false
    else do
      let resolve : PaymentMethod Bool := do
        let res ← resubmitRefund r paymentId
        let status := refundStatusOf res.status
        let changed ← autocommit (settleRefund now r.id res.ref status .recovery)
        return changed && decide (status ≠ r.status)
      tryCatch resolve fun e => do
        if e = .provider true ∧ r.status = .pending then
          let _ ← autocommit (markUncertain r.id)
        return false

/-- The worker may look at the refund. -/
def Refund.due (stale : Time) (r : Refund) : Bool := r.reconciledAt.all (· < stale)

/-- Claim a refund for this worker; whether it could be. -/
def claimRefund (now stale : Time) (id : ℕ) : PaymentTx Bool :=
  updateWhere (.refund id)
    (fun db => (db.refunds.find? id).any fun r => r.waiting && r.due stale)
    fun db => db.updateRefund id (fun r => { r with reconciledAt := some now }) fun _ => rfl

/-- Resolve a refund that could be claimed. -/
def recoverRefund (gateway : Gateway) (now stale : Time) (refundId : ℕ) : PaymentMethod Unit := do
  let claimed ← autocommit (claimRefund now stale refundId)
  if claimed then do
    let _ ← reconcileRefund gateway now refundId

/-- One pass of the recovery worker. -/
def recoveryTick (gateway : Gateway) (now : Time) : PaymentMethod Unit := do
  let stale := now - 120000
  let candidates ← look fun db => (db.refunds.rows.filter fun r =>
    r.waiting && decide (r.mode ≠ .tender .cash) && decide (r.createdAt < stale) &&
      r.due stale).take 50
  candidates.forM fun r => recoverRefund gateway now stale r.id
  let opened ← look fun db => (db.gatewayPayments.rows.filter fun g =>
    g.status = .created ∧ g.providerRef ≠ none ∧ g.createdAt < now - 60000).take 50
  opened.forM fun g => do
    let _ ← tryCatch (refreshCollect now g) fun _ => pure false

/-- An operator asks to resolve a refund now. -/
def reconcileRefundNow (gateway : Gateway) (user : AuthUser) (now : Time) (outletId : String)
    (refundId : ℕ) : PaymentMethod (ℕ × RefundStatus × Option String) := do
  assertOutlet user outletId
  let found ← look fun db => (db.refunds.find? refundId).filter fun r =>
    r.tenantId = user.tenantId ∧ r.outletId = outletId
  let r ← getOr found (.notFound "Refund not found")
  let _ ← reconcileRefund gateway now r.id
  let after ← look fun db => db.refunds.find? r.id
  let row ← getOr after .database
  return (row.id, row.status, row.gatewayRef)

end StelloKitchens.Payments
