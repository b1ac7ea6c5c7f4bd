import StelloKitchens.SaasBilling.Lifecycle
import StelloKitchens.Shared.Service

/-!
# Subscription invoices

When a period of a subscription ends, a cycle invoices the next one and has the provider charge the
invoice; a provider that charges by itself tells of it by a webhook, for which an invoice is looked
for or made. What is not paid can be paid by hand. Each method reads first and writes in later
transactions.

## Main definitions

* `TenantSubscription`, `SubscriptionInvoice`, `BillingDb` — the tables, with histories of charges,
  of webhooks, of the ends that periods are given and of what a cycle does.
* `collect`, `markPaid`, `markFailed` — charging an invoice, and its outcome.
* `payInvoice`, `runCycle`, `applyWebhook` — the methods.
* `billing` — the methods side by side.
-/

namespace StelloKitchens.SaasBilling

open Checked Tx Method
open Service (ServiceError)

/-! ### Rows -/

structure Plan where
  id : ℕ
  code : String
  priceMonthly : ℤ
  priceYearly : ℤ
  isActive : Bool
  deriving DecidableEq

structure TenantSubscription where
  id : ℕ
  tenantId : ℕ
  planId : ℕ
  status : SubscriptionStatus
  billingCycle : BillingCycle
  trialEndsAt : Option Time
  currentPeriodStart : Option Time
  currentPeriodEnd : Option Time
  graceEndsAt : Option Time
  cancelAtPeriodEnd : Bool
  provider : String
  providerSubscriptionId : Option String
  checkoutUrl : Option String
  deriving DecidableEq

inductive InvoiceStatus
  | unpaid
  | paid
  | failed
  | void
  deriving DecidableEq

structure SubscriptionInvoice where
  id : ℕ
  tenantId : ℕ
  subscriptionId : ℕ
  number : String
  planCode : String
  billingCycle : BillingCycle
  periodStart : Time
  periodEnd : Time
  amounts : InvoiceAmounts
  status : InvoiceStatus
  dueAt : Time
  paidAt : Option Time
  attempts : ℕ
  providerRef : Option String
  deriving DecidableEq

/-- What happened to a subscription, and the provider's event that told of it. -/
structure EventRow where
  tenantId : ℕ
  type : String
  fromStatus : Option SubscriptionStatus
  toStatus : Option SubscriptionStatus
  providerEventId : Option String
  deriving DecidableEq

/-! ### Tables -/

inductive ChargeKind
  /-- The provider is asked to charge the invoice. -/
  | asked
  /-- The provider has charged it. -/
  | charged
  /-- The invoice becomes paid. -/
  | paid
  /-- The invoice becomes failed. -/
  | failed
  deriving DecidableEq

structure ChargeEvent where
  kind : ChargeKind
  invoiceId : ℕ
  subscriptionId : ℕ
  periodStart : Time
  deriving DecidableEq

/-- What the event of a webhook comes to. -/
inductive WebhookEffect
  | paid (invoiceId : ℕ)
  | failed (invoiceId : ℕ)
  /-- The tenant's subscription has moved to this status. -/
  | moved (tenantId : ℕ) (status : SubscriptionStatus)
  | nothing
  deriving DecidableEq

/-- How far the event of a webhook is. -/
inductive Handling
  /-- By whoever has drawn the number. -/
  | recorded (eventId : String) (id : ℕ)
  | applied (eventId : String) (effect : WebhookEffect)
  /-- The delivery that has recorded the event is over. -/
  | finished (eventId : String)
  deriving DecidableEq

/-- What a cycle does to a subscription: as it was listed, and as it is found. -/
structure CycleStep where
  listed : TenantSubscription
  found : Option TenantSubscription
  event : SubscriptionEvent
  now : Time
  deriving DecidableEq

structure BillingDb where
  now : Time
  plans : KeyedTable Plan.id
  subscriptions : KeyedTable TenantSubscription.id
  tenantStatus : ℕ → Option TenantStatus
  tenantTrialEndsAt : ℕ → Option Time
  invoices : KeyedTable SubscriptionInvoice.id
  events : List EventRow
  counters : String → ℕ
  log : List ChargeEvent
  handled : List Handling
  /-- The ends that the periods of a tenant's subscription were given. -/
  periodEnds : List (ℕ × Time)
  steps : List CycleStep

/-- What a transaction locks. -/
inductive LockKey
  | subscription (tenantId : ℕ)
  | invoice (id : ℕ)
  | counter (key : String)
  | event (providerEventId : String)
  | plan (code : String)
  deriving DecidableEq

/-- What a commit is noted as. -/
inductive Note
  | plain
  /-- An invoice is made for this period. -/
  | invoice (subscriptionId : ℕ) (periodStart : Time)
  /-- An invoice becomes paid, as it was read. -/
  | paid (inv : SubscriptionInvoice)
  | failed (invoiceId : ℕ)
  /-- A cycle moves a subscription that was listed so. -/
  | cycle (listed : TenantSubscription)
  | extendTrial (tenantId : ℕ)
  /-- A webhook is told that its event is recorded. -/
  | redelivery (eventId : String)
  deriving DecidableEq

/-- An invoice that the provider is asked to charge. -/
structure ChargeRequest where
  invoiceNumber : String
  amount : ℤ
  providerSubscriptionId : Option String
  deriving DecidableEq

inductive ChargeReply
  | paid (providerRef : Option String)
  | failed
  | pending
  /-- The call fails. -/
  | error
  deriving DecidableEq

abbrev BillingTx := Tx BillingDb LockKey ServiceError
abbrev BillingMethod := Method BillingDb LockKey Note ChargeRequest ChargeReply ServiceError

/-- What happens to an invoice. -/
def SubscriptionInvoice.event (inv : SubscriptionInvoice) (kind : ChargeKind) : ChargeEvent :=
  ⟨kind, inv.id, inv.subscriptionId, inv.periodStart⟩

/-! ### Transitions -/

def SubscriptionEvent.text : SubscriptionEvent → String
  | .paymentSucceeded => "PAYMENT_SUCCEEDED"
  | .paymentFailed => "PAYMENT_FAILED"
  | .trialExpired => "TRIAL_EXPIRED"
  | .graceExpired => "GRACE_EXPIRED"
  | .cancel => "CANCEL"
  | .periodEnded => "PERIOD_ENDED"
  | .adminSuspend => "ADMIN_SUSPEND"
  | .adminReactivate => "ADMIN_REACTIVATE"

/-- A change of a subscription's row that keeps its keys. -/
structure Patch where
  apply : TenantSubscription → TenantSubscription
  id : ∀ sub, (apply sub).id = sub.id
  tenantId : ∀ sub, (apply sub).tenantId = sub.tenantId

/-- The subscription moves, and the tenant with it. -/
def BillingDb.move (db : BillingDb) (sub : TenantSubscription) (event : SubscriptionEvent)
    (to' : SubscriptionStatus) (patch : Patch) : BillingDb :=
  { db with
    subscriptions := db.subscriptions.modify (fun s => s.id = sub.id)
      (fun s => { patch.apply s with status := to' }) fun s => patch.id s
    tenantStatus := fun id =>
      if id = sub.tenantId then some (tenantStatusFor to') else db.tenantStatus id
    events := db.events ++ [⟨sub.tenantId, event.text, some sub.status, some to', none⟩] }

def noPatch : Patch := ⟨fun sub => sub, fun _ => rfl, fun _ => rfl⟩

def BillingDb.subscriptionOf (db : BillingDb) (tenantId : ℕ) : Option TenantSubscription :=
  db.subscriptions.rows.find? fun s => s.tenantId = tenantId

/-- Apply an event under the lock of the subscription; the status it leads to. -/
def transition (tenantId : ℕ) (event : SubscriptionEvent) (patch : Patch) :
    BillingTx SubscriptionStatus := do
  acquire (.subscription tenantId)
  let sub ← query (·.subscriptionOf tenantId)
  let sub ← require sub .database
  let to' ← require (nextSubscriptionStatus sub.status event) (.badRequest "Cannot apply")
  update (·.move sub event to' patch)
  return to'

/-! ### Invoices -/

/-- An invoice changes. -/
def BillingDb.setInvoice (db : BillingDb) (id : ℕ) (status : InvoiceStatus) (paidAt : Option Time)
    (providerRef : Option String) : BillingDb :=
  { db with
    invoices := db.invoices.modify (fun i => i.id = id)
      (fun i => { i with
        status := status
        paidAt := paidAt
        providerRef := providerRef
        attempts := i.attempts + 1 })
      fun _ => rfl }

/-- What a paid invoice does to its subscription. -/
def paidPatch (inv : SubscriptionInvoice) : Patch where
  apply sub := { sub with
    currentPeriodStart := some inv.periodStart
    currentPeriodEnd := some inv.periodEnd
    graceEndsAt := none
    trialEndsAt := none
    checkoutUrl := none }
  id _ := rfl
  tenantId _ := rfl

/-- Mark an invoice paid, unless it was when it was read; the invoice that becomes paid. -/
def markPaid (invoiceId : ℕ) (providerRef : Option String) :
    BillingTx (Option SubscriptionInvoice) := do
  let inv ← query fun db => db.invoices.find? invoiceId
  let inv ← require inv .database
  if inv.status = .paid then return none
  else do
    let now ← query (·.now)
    acquire (.invoice inv.id)
    update fun db => { db.setInvoice inv.id .paid (some now) providerRef with
      log := db.log ++ [inv.event .paid]
      periodEnds := db.periodEnds ++ [(inv.tenantId, inv.periodEnd)] }
    let _ ← transition inv.tenantId .paymentSucceeded (paidPatch inv)
    return some inv

/-- An invoice that becomes paid is noted. -/
def paidNote : Option SubscriptionInvoice → Note
  | some inv => .paid inv
  | none => .plain

/-- The grace period begins with the first failure. -/
def gracePatch (graceEndsAt : Option Time) (now : Time) : Patch where
  apply sub := { sub with graceEndsAt := some (graceEndsAt.getD (now + paymentGraceDays * dayMs)) }
  id _ := rfl
  tenantId _ := rfl

def logEvent (tenantId : ℕ) (type : String) (fromStatus toStatus : Option SubscriptionStatus)
    (providerEventId : Option String) (db : BillingDb) : BillingDb :=
  { db with events := db.events ++ [⟨tenantId, type, fromStatus, toStatus, providerEventId⟩] }

/-- Mark an invoice failed, whatever it was. -/
def markFailed (invoiceId : ℕ) : BillingTx Unit := do
  acquire (.invoice invoiceId)
  let inv ← query fun db => db.invoices.find? invoiceId
  let inv ← require inv .database
  update fun db => { db.setInvoice inv.id .failed inv.paidAt inv.providerRef with
    log := db.log ++ [inv.event .failed] }
  let sub ← query fun db => db.subscriptions.find? inv.subscriptionId
  let sub ← require sub .database
  if canTransition sub.status .paymentFailed then do
    let now ← query (·.now)
    let _ ← transition inv.tenantId .paymentFailed (gracePatch sub.graceEndsAt now)
    return ()
  else update (logEvent inv.tenantId "PAYMENT_FAILED" (some sub.status) (some sub.status) none)

/-- The invoice of a period, as it is made. -/
def invoiceRow (sub : TenantSubscription) (plan : Plan) (periodStart : Time) (id : ℕ)
    (number : String) : SubscriptionInvoice :=
  let subtotal := match sub.billingCycle with
    | .yearly => plan.priceYearly
    | .monthly => plan.priceMonthly
  ⟨id, sub.tenantId, sub.id, number, plan.code, sub.billingCycle, periodStart,
    addCycle periodStart sub.billingCycle, saasInvoiceAmounts subtotal, .unpaid, periodStart, none, 0,
    none⟩

/-- The next number of the fiscal year. -/
def nextInvoiceNumber (at_ : Time) : BillingTx String := do
  let fy := financialYear at_
  let key := "saas-invoice:" ++ fy
  acquire (.counter key)
  let value ← query fun db => db.counters key + 1
  update fun db => { db with counters := fun k => if k = key then value else db.counters k }
  return "STL/" ++ fy ++ "/" ++ padStart 5 (toString value)

def createInvoiceTx (sub : TenantSubscription) (plan : Plan) (periodStart : Time) :
    BillingTx SubscriptionInvoice := do
  let number ← nextInvoiceNumber periodStart
  let id ← draw
  let inv := invoiceRow sub plan periodStart id number
  update fun db => { db with invoices := db.invoices.put inv }
  return inv

def createInvoice (sub : TenantSubscription) (plan : Plan) (periodStart : Time) :
    BillingMethod SubscriptionInvoice :=
  atomically (fun _ => .invoice sub.id periodStart) (createInvoiceTx sub plan periodStart)

/-- The history goes on. -/
def record (e : ChargeEvent) : BillingMethod Unit :=
  atomically (fun _ => .plain) (update fun db => { db with log := db.log ++ [e] })

/-- Have the provider charge an invoice, and apply the outcome. -/
def collect (invoiceId : ℕ) : BillingMethod Unit := do
  let inv ← look fun db => (db.invoices.find? invoiceId).bind fun inv =>
    (db.subscriptions.find? inv.subscriptionId).map fun sub => (inv, sub.providerSubscriptionId)
  let (inv, providerSubscriptionId) ← getOr inv .database
  record (inv.event .asked)
  let result ← ask ⟨inv.number, inv.amounts.total, providerSubscriptionId⟩
  match result with
  | .paid providerRef => do
    record (inv.event .charged)
    let _ ← atomically paidNote (markPaid inv.id providerRef)
    return ()
  | .failed => atomically (fun _ => .failed inv.id) (markFailed inv.id)
  | .pending => atomically (fun _ => .plain) do
      acquire (.invoice inv.id)
      update fun db => { db with
        invoices := db.invoices.modify (fun i => i.id = inv.id)
          (fun i => { i with attempts := i.attempts + 1 }) fun _ => rfl }
  | .error => throw .database

/-- Not paid, and not void. -/
def InvoiceStatus.payable : InvoiceStatus → Bool
  | .unpaid => true
  | .failed => true
  | _ => false

/-- Charge an invoice now. -/
def payInvoice (tenantId invoiceId : ℕ) : BillingMethod Unit := do
  let inv ← look fun db => (db.invoices.find? invoiceId).filter fun i => i.tenantId = tenantId
  let inv ← getOr inv (.notFound "Invoice not found")
  guardOr (inv.status.payable = true) (.badRequest "Invoice is not payable")
  collect inv.id

/-! ### Cycles -/

/-- An invoice of the period that can be paid. -/
def BillingDb.payableInvoice (db : BillingDb) (subscriptionId : ℕ) (periodStart : Time) :
    Option SubscriptionInvoice :=
  db.invoices.rows.find? fun i =>
    i.subscriptionId = subscriptionId ∧ i.periodStart = periodStart ∧ i.status.payable = true

/-- The invoice of a period that can be paid, or a new one. -/
def invoiceFor (sub : TenantSubscription) (plan : Plan) (periodStart : Time) :
    BillingMethod SubscriptionInvoice := do
  let existing ← look fun db => db.payableInvoice sub.id periodStart
  match existing with
  | some inv => return inv
  | none => createInvoice sub plan periodStart

/-- Invoice the next period and have it charged; whether it was paid. -/
def renew (sub : TenantSubscription) (plan : Plan) : BillingMethod Bool := do
  let periodStart ← getOr sub.currentPeriodEnd .database
  let invoice ← invoiceFor sub plan periodStart
  collect invoice.id
  let after ← look fun db => db.invoices.find? invoice.id
  let after ← getOr after .database
  return after.status = .paid

inductive CycleOutcome
  | trialExpired
  | suspended
  | cancelled
  | renewed
  | renewalFailed
  deriving DecidableEq

/-- Due for the cycle: a trial, a period or a grace that is over. -/
def TenantSubscription.due (now : Time) (sub : TenantSubscription) : Bool :=
  let elapsed (t : Option Time) : Bool := t.any fun t => t ≤ now
  match sub.status with
  | .trial => elapsed sub.trialEndsAt
  | .active => elapsed sub.currentPeriodEnd
  | .pastDue => elapsed sub.graceEndsAt
  | _ => false

/-- What is due, with its plan. -/
def BillingDb.dueSubscriptions (db : BillingDb) (now : Time) : List (TenantSubscription × Plan) :=
  (db.subscriptions.rows.filter (·.due now)).filterMap fun sub =>
    (db.plans.find? sub.planId).map fun plan => (sub, plan)

/-- A listed subscription moves, and what was found is recorded. -/
def cycleStepTx (now : Time) (sub : TenantSubscription) (event : SubscriptionEvent) :
    BillingTx Unit := do
  update fun db => { db with
    steps := db.steps ++ [⟨sub, db.subscriptionOf sub.tenantId, event, now⟩] }
  let _ ← transition sub.tenantId event noPatch
  return ()

def cycleStep (now : Time) (sub : TenantSubscription) (event : SubscriptionEvent) :
    BillingMethod Unit :=
  atomically (fun _ => .cycle sub) (cycleStepTx now sub event)

def cycleOne (now : Time) (sub : TenantSubscription) (plan : Plan) :
    BillingMethod (Option CycleOutcome) := do
  if sub.status = .trial then do
    cycleStep now sub .trialExpired
    return some .trialExpired
  else if sub.status = .pastDue then do
    cycleStep now sub .graceExpired
    return some .suspended
  else if sub.cancelAtPeriodEnd then do
    cycleStep now sub .periodEnded
    return some .cancelled
  else if sub.provider = "mock" ∨ (truthy sub.providerSubscriptionId).isNone then do
    let ok ← renew sub plan
    return some (if ok then .renewed else .renewalFailed)
  else return none

/-- Everything that is due, one after the other; failures are passed over. -/
def runCycle : BillingMethod (List (Option CycleOutcome)) := do
  let now ← look (·.now)
  let due ← look (·.dueSubscriptions now)
  due.mapM fun d => tryCatch (cycleOne now d.1 d.2) fun _ => return none

/-! ### Webhooks -/

inductive WebhookType
  | activated
  | charged
  | paymentFailed
  | halted
  | cancelled
  deriving DecidableEq

def WebhookType.text : WebhookType → String
  | .activated => "WEBHOOK_ACTIVATED"
  | .charged => "WEBHOOK_CHARGED"
  | .paymentFailed => "WEBHOOK_PAYMENT_FAILED"
  | .halted => "WEBHOOK_HALTED"
  | .cancelled => "WEBHOOK_CANCELLED"

structure BillingWebhookEvent where
  eventId : String
  type : WebhookType
  providerSubscriptionId : String
  paymentId : Option String
  periodStart : Option Time
  periodEnd : Option Time

inductive WebhookResult
  | ok
  | ignored
  | duplicate
  deriving DecidableEq

/-- The history of webhooks goes on. -/
def BillingDb.handle (db : BillingDb) (entry : Handling) : BillingDb :=
  { db with handled := db.handled ++ [entry] }

def handling (entry : Handling) : BillingMethod Unit :=
  atomically (fun _ => .plain) (update (·.handle entry))

/-- The event is recorded, if it is new. -/
def recordEventTx (tenantId : ℕ) (evt : BillingWebhookEvent) : BillingTx Unit := do
  acquire (.event evt.eventId)
  let taken ← query fun db => db.events.any fun e => e.providerEventId = some evt.eventId
  check (taken = false) .p2002
  let id ← draw
  update fun db => (logEvent tenantId evt.type.text none none (some evt.eventId) db).handle
    (.recorded evt.eventId id)

/-- The period's end, as the provider has it. -/
def setPeriodEndTx (invoiceId : ℕ) (periodEnd : Time) : BillingTx Unit := do
  acquire (.invoice invoiceId)
  let inv ← query fun db => db.invoices.find? invoiceId
  check (inv.isSome = true) .database
  update fun db => { db with
    invoices := db.invoices.modify (fun i => i.id = invoiceId)
      (fun i => { i with periodEnd := periodEnd }) fun _ => rfl }

def applyCharged (sub : TenantSubscription) (plan : Plan) (evt : BillingWebhookEvent) :
    BillingMethod Unit := do
  let now ← look (·.now)
  let periodStart := (evt.periodStart.or sub.currentPeriodEnd).getD now
  let inv ← invoiceFor sub plan periodStart
  match evt.periodEnd with
  | some periodEnd => atomically (fun _ => .plain) (setPeriodEndTx inv.id periodEnd)
  | none => pure ()
  let _ ← atomically paidNote do
    let paid ← markPaid inv.id evt.paymentId
    update (·.handle (.applied evt.eventId (paid.elim .nothing fun inv => .paid inv.id)))
    return paid
  return ()

/-- A subscription moves by the event of a webhook. -/
def applyMove (eventId : String) (tenantId : ℕ) (event : SubscriptionEvent) (patch : Patch) :
    BillingMethod Unit :=
  atomically (fun _ => .plain) do
    let to' ← transition tenantId event patch
    update (·.handle (.applied eventId (.moved tenantId to')))

def applyPaymentFailed (eventId : String) (sub : TenantSubscription) : BillingMethod Unit := do
  let unpaid ← look fun db =>
    (db.invoices.rows.filter fun i => i.subscriptionId = sub.id ∧ i.status.payable = true).getLast?
  match unpaid with
  | some inv => atomically (fun _ => .failed inv.id) do
      markFailed inv.id
      update (·.handle (.applied eventId (.failed inv.id)))
  | none =>
    if canTransition sub.status .paymentFailed then do
      let now ← look (·.now)
      applyMove eventId sub.tenantId .paymentFailed (gracePatch sub.graceEndsAt now)
    else handling (.applied eventId .nothing)

/-- An event is applied, if the subscription admitted it when it was read. -/
def applyTransition (eventId : String) (sub : TenantSubscription) (event : SubscriptionEvent) :
    BillingMethod Unit :=
  if canTransition sub.status event then applyMove eventId sub.tenantId event noPatch
  else handling (.applied eventId .nothing)

def applyEvent (sub : TenantSubscription) (plan : Plan) (evt : BillingWebhookEvent) :
    BillingMethod Unit :=
  match evt.type with
  | .activated => handling (.applied evt.eventId .nothing)
  | .charged => applyCharged sub plan evt
  | .paymentFailed => applyPaymentFailed evt.eventId sub
  | .halted => applyTransition evt.eventId sub
      (if canTransition sub.status .graceExpired then .graceExpired else .adminSuspend)
  | .cancelled => applyTransition evt.eventId sub
      (if sub.status = .active then .periodEnded else .cancel)

/-- An event of the provider; one that was recorded before is passed over. -/
def applyWebhook (evt : BillingWebhookEvent) : BillingMethod WebhookResult := do
  let found ← look fun db => (db.subscriptions.rows.find? fun s =>
    s.providerSubscriptionId = some evt.providerSubscriptionId).bind fun sub =>
      (db.plans.find? sub.planId).map fun plan => (sub, plan)
  match found with
  | none => return .ignored
  | some (sub, plan) => do
    let fresh ← tryCatch (do
        atomically (fun _ => .plain) (recordEventTx sub.tenantId evt)
        return true) fun err =>
      if err = .p2002 then do
        atomically (fun _ => .redelivery evt.eventId) (return ())
        return false
      else throw err
    if fresh then do
      applyEvent sub plan evt
      handling (.finished evt.eventId)
      return .ok
    else return .duplicate

/-! ### Side by side -/

/-- A subscription that starts to be paid is invoiced from now on. -/
def startPaying (subscriptionId : ℕ) : BillingMethod Unit := do
  let found ← look fun db => (db.subscriptions.find? subscriptionId).bind fun sub =>
    (db.plans.find? sub.planId).map fun plan => (sub, plan)
  let (sub, plan) ← getOr found .database
  let now ← look (·.now)
  let invoice ← createInvoice sub plan now
  collect invoice.id

inductive BillingRequest
  /-- Time passes. -/
  | tick (ms : ℕ)
  /-- A plan is made or edited. -/
  | setPlan (plan : Plan)
  /-- A subscription is made or edited, by its owner or the platform. -/
  | setSubscription (sub : TenantSubscription)
  | startPaying (subscriptionId : ℕ)
  | payInvoice (tenantId invoiceId : ℕ)
  | runCycle
  | webhook (evt : BillingWebhookEvent)

/-- A subscription is stored, if it is its tenant's only one. -/
def setSubscriptionTx (sub : TenantSubscription) : BillingTx Unit := do
  acquire (.subscription sub.tenantId)
  let taken ← query fun db => db.subscriptions.rows.any fun s => s.tenantId = sub.tenantId ∧ s.id ≠ sub.id
  check (taken = false) .p2002
  update fun db => { db with
    subscriptions := db.subscriptions.put sub
    tenantStatus := fun id =>
      if id = sub.tenantId then some (tenantStatusFor sub.status) else db.tenantStatus id }

def BillingRequest.run : BillingRequest → BillingMethod Unit
  | .tick ms => atomically (fun _ => .plain) (update fun db => { db with now := db.now + ms })
  | .setPlan plan => atomically (fun _ => .plain) (update fun db =>
      { db with plans := db.plans.put plan })
  | .setSubscription sub => atomically (fun _ => .plain) (setSubscriptionTx sub)
  | .startPaying subscriptionId => SaasBilling.startPaying subscriptionId
  | .payInvoice tenantId invoiceId => SaasBilling.payInvoice tenantId invoiceId
  | .runCycle => do
    let _ ← SaasBilling.runCycle
    return ()
  | .webhook evt => do
    let _ ← applyWebhook evt
    return ()

abbrev BillingWorld :=
  World BillingDb LockKey Note ChargeRequest ChargeReply (Except ServiceError Unit)

/-- The invoices before the first of the requests: one for a period. -/
structure Started (db : BillingDb) (n : ℕ) : Prop where
  ids : ∀ i ∈ db.invoices, i.id < n
  once : ∀ i ∈ db.invoices, ∀ j ∈ db.invoices, i.subscriptionId = j.subscriptionId →
    i.periodStart = j.periodStart → i.id = j.id
  log : db.log = []

/-- The methods side by side. -/
def billing : Machine BillingWorld (WorldAction BillingRequest ChargeReply) :=
  serve (fun r : BillingRequest => r.run.run) Started

end StelloKitchens.SaasBilling
