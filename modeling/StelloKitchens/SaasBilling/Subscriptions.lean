import StelloKitchens.SaasBilling.Invoices

/-!
# Subscriptions and the platform

Every tenant gets a subscription when it is first asked for, on trial or as the tenant stands. Its
owner starts to pay, changes the plan, cancels or resumes; the platform extends trials, suspends,
reactivates and cancels. Beside these the periods are renewed, invoices are paid, and the provider
tells of its charges.

## Main definitions

* `ensureSubscription`, `subscribe`, `cancel`, `platformAction` — the methods.
* `lifecycle` — all methods side by side, from empty tables.
-/

namespace StelloKitchens.SaasBilling

open Checked Tx Method
open Service (ServiceError)

/-! ### The first subscription -/

structure PlanDefinition where
  code : String
  priceMonthly : ℤ
  priceYearly : ℤ

def planCatalogue : List PlanDefinition :=
  [⟨"starter", 99900, 999000⟩, ⟨"growth", 249900, 2499000⟩, ⟨"chain", 799900, 7999000⟩]

def trialPlanCode : String := "growth"

def trialDays : ℤ := 14

/-- Plans of the catalogue that are missing are made. -/
def ensurePlans : BillingTx Unit := do
  let _ ← planCatalogue.mapM fun p => do
    acquire (.plan p.code)
    let taken ← query fun db => db.plans.rows.any fun plan => plan.code = p.code
    if taken then return ()
    else do
      let id ← draw
      update fun db => { db with
        plans := db.plans.put ⟨id, p.code, p.priceMonthly, p.priceYearly, true⟩ }
  return ()

/-- The subscription that a tenant begins with. -/
def firstSubscription (tenantId planId : ℕ) (tenant : TenantStatus) (trialEndsAt : Option Time)
    (now : Time) (id : ℕ) : TenantSubscription where
  id := id
  tenantId := tenantId
  planId := planId
  status := match tenant with
    | .trial => .trial
    | .active => .active
    | .suspended => .suspended
  billingCycle := .monthly
  trialEndsAt := if tenant = .trial then some (trialEndsAt.getD (now + trialDays * dayMs)) else none
  currentPeriodStart := if tenant = .active then some now else none
  currentPeriodEnd := if tenant = .active then some (now + 30 * dayMs) else none
  graceEndsAt := none
  cancelAtPeriodEnd := false
  provider := "mock"
  providerSubscriptionId := none
  checkoutUrl := none

/-- The tenant's subscription, or this one. -/
def upsertSubscription (tenantId : ℕ) (first : ℕ → TenantSubscription) :
    BillingTx TenantSubscription := do
  acquire (.subscription tenantId)
  let existing ← query (·.subscriptionOf tenantId)
  match existing with
  | some sub => return sub
  | none => do
    let id ← draw
    update fun db => { db with
      subscriptions := db.subscriptions.put (first id)
      periodEnds := db.periodEnds ++ (first id).currentPeriodEnd.toList.map fun e => (tenantId, e) }
    return first id

def BillingDb.withPlan (db : BillingDb) (sub : TenantSubscription) :
    Option (TenantSubscription × Plan) :=
  (db.plans.find? sub.planId).map fun plan => (sub, plan)

def ensureSubscription (tenantId : ℕ) : BillingMethod (TenantSubscription × Plan) := do
  let existing ← look fun db => (db.subscriptionOf tenantId).bind db.withPlan
  match existing with
  | some found => return found
  | none => do
    atomically (fun _ => .plain) ensurePlans
    let tenant ← look fun db => (db.tenantStatus tenantId).map fun status =>
      (status, db.tenantTrialEndsAt tenantId)
    let plan ← look fun db => db.plans.rows.find? fun plan => plan.code = trialPlanCode
    let (status, trialEndsAt) ← getOr tenant .database
    let plan ← getOr plan .database
    let now ← look (·.now)
    let sub ← atomically (fun _ => .plain)
      (upsertSubscription tenantId (firstSubscription tenantId plan.id status trialEndsAt now))
    let found ← look (·.withPlan sub)
    getOr found .database

/-! ### The owner -/

structure SubscribeInput where
  planCode : String
  billingCycle : BillingCycle

/-- What the provider makes of a new subscription. -/
structure CreatedSubscription where
  providerSubscriptionId : String
  checkoutUrl : Option String
  chargesImmediately : Bool

/-- A change of a subscription that leaves its status and its period. -/
structure Edit extends Patch where
  status : ∀ sub, (apply sub).status = sub.status
  currentPeriodEnd : ∀ sub, (apply sub).currentPeriodEnd = sub.currentPeriodEnd

/-- A subscription is edited. -/
def editSubscription (sub : TenantSubscription) (edit : Edit) : BillingTx Unit := do
  acquire (.subscription sub.tenantId)
  update fun db => { db with
    subscriptions := db.subscriptions.modify (fun s => s.id = sub.id) edit.apply edit.id }

def planEdit (planId : ℕ) (billingCycle : BillingCycle) : Edit where
  apply sub := { sub with
    planId := planId
    billingCycle := billingCycle
    cancelAtPeriodEnd := false }
  id _ := rfl
  tenantId _ := rfl
  status _ := rfl
  currentPeriodEnd _ := rfl

def providerEdit (planId : ℕ) (billingCycle : BillingCycle) (provider : String)
    (created : CreatedSubscription) : Edit where
  apply sub := { sub with
    planId := planId
    billingCycle := billingCycle
    provider := provider
    providerSubscriptionId := some created.providerSubscriptionId
    checkoutUrl := created.checkoutUrl
    cancelAtPeriodEnd := false }
  id _ := rfl
  tenantId _ := rfl
  status _ := rfl
  currentPeriodEnd _ := rfl

def cancelEdit : Edit where
  apply sub := { sub with cancelAtPeriodEnd := true }
  id _ := rfl
  tenantId _ := rfl
  status _ := rfl
  currentPeriodEnd _ := rfl

def planIdEdit (planId : ℕ) : Edit where
  apply sub := { sub with planId := planId }
  id _ := rfl
  tenantId _ := rfl
  status _ := rfl
  currentPeriodEnd _ := rfl

/-- Something is logged that moves nothing. -/
def logged (sub : TenantSubscription) (type : String) : BillingMethod Unit :=
  atomically (fun _ => .plain)
    (update (logEvent sub.tenantId type (some sub.status) (some sub.status) none))

/-- What the provider and the usage of a tenant have to do with a request. -/
structure Circumstances where
  /-- The current usage fits the plan. -/
  fits : Bool
  /-- The provider changes or cancels its subscription. -/
  accepts : Bool
  provider : String
  /-- What it makes of a new subscription, if the call succeeds. -/
  created : Option CreatedSubscription

/-- Start paying, change plan or cycle, or resume a subscription that is set to cancel. -/
def subscribe (tenantId : ℕ) (input : SubscribeInput) (circumstances : Circumstances) :
    BillingMethod Unit := do
  let (sub, _) ← ensureSubscription tenantId
  let plan ← look fun db => db.plans.rows.find? fun plan => plan.code = input.planCode ∧ plan.isActive
  let plan ← getOr plan (.notFound "Plan not found")
  guardOr (circumstances.fits = true) (.conflict "Current usage exceeds the plan.")
  if sub.status = .active ∨ sub.status = .pastDue then do
    let samePlan : Bool := sub.planId = plan.id ∧ sub.billingCycle = input.billingCycle
    guardOr (samePlan = false ∨ sub.cancelAtPeriodEnd = true)
      (.conflict "You're already on this plan")
    guardOr (samePlan = true ∨ (truthy sub.providerSubscriptionId).isNone = true ∨
      circumstances.accepts = true) .database
    atomically (fun _ => .plain) (editSubscription sub (planEdit plan.id input.billingCycle))
    logged sub (if samePlan then "RESUMED" else "PLAN_CHANGED")
  else do
    let created ← getOr circumstances.created .database
    atomically (fun _ => .plain) (editSubscription sub
      (providerEdit plan.id input.billingCycle circumstances.provider created))
    if created.chargesImmediately then do
      let now ← look (·.now)
      let invoice ← createInvoice { sub with billingCycle := input.billingCycle } plan now
      collect invoice.id
    else return ()

def cancel (tenantId : ℕ) (circumstances : Circumstances) : BillingMethod Unit := do
  let (sub, _) ← ensureSubscription tenantId
  guardOr ((truthy sub.providerSubscriptionId).isNone = true ∨ circumstances.accepts = true) .database
  if sub.status = .active then do
    atomically (fun _ => .plain) (editSubscription sub cancelEdit)
    logged sub "CANCEL_SCHEDULED"
  else do
    let _ ← atomically (fun _ => .plain) (transition tenantId .cancel noPatch)
    return ()

/-! ### The platform -/

inductive PlatformAction
  | extendTrial (days : ℕ)
  | suspend
  | reactivate
  | cancel
  | changePlan (planCode : String)

/-- The trial goes on until then, whatever the subscription is by now. -/
def BillingDb.extendTrial (db : BillingDb) (sub : TenantSubscription) (trialEndsAt : Time) :
    BillingDb :=
  { db with
    subscriptions := db.subscriptions.modify (fun s => s.id = sub.id)
      (fun s => { s with status := .trial, trialEndsAt := some trialEndsAt }) fun _ => rfl
    tenantStatus := fun id => if id = sub.tenantId then some .trial else db.tenantStatus id
    tenantTrialEndsAt := fun id =>
      if id = sub.tenantId then some trialEndsAt else db.tenantTrialEndsAt id
    events := db.events ++
      [⟨sub.tenantId, "TRIAL_EXTENDED", some sub.status, some .trial, none⟩] }

def extendTrialTx (sub : TenantSubscription) (trialEndsAt : Time) : BillingTx Unit := do
  acquire (.subscription sub.tenantId)
  update (·.extendTrial sub trialEndsAt)

/-- A subscription without a period gets one from now on. -/
def reactivatePatch (sub : TenantSubscription) (now : Time) : Patch :=
  if sub.currentPeriodEnd.any fun e => now < e then
    ⟨fun s => { s with graceEndsAt := none }, fun _ => rfl, fun _ => rfl⟩
  else
    ⟨fun s => { s with
        graceEndsAt := none
        currentPeriodStart := some now
        currentPeriodEnd := some (addCycle now sub.billingCycle) }, fun _ => rfl, fun _ => rfl⟩

/-- The end of the period that a subscription gets so. -/
def reactivatedEnd (sub : TenantSubscription) (now : Time) : Option Time :=
  if sub.currentPeriodEnd.any fun e => now < e then none else some (addCycle now sub.billingCycle)

def reactivateTx (sub : TenantSubscription) (now : Time) : BillingTx Unit := do
  update fun db => { db with
    periodEnds := db.periodEnds ++ (reactivatedEnd sub now).toList.map fun e => (sub.tenantId, e) }
  let _ ← transition sub.tenantId .adminReactivate (reactivatePatch sub now)
  return ()

def platformAction (tenantId : ℕ) (action : PlatformAction) : BillingMethod Unit := do
  let (sub, _) ← ensureSubscription tenantId
  match action with
  | .extendTrial days => do
    guardOr (sub.status = .trial ∨ sub.status = .suspended)
      (.badRequest "Only trial or suspended tenants can get a trial extension")
    let now ← look (·.now)
    let start := (sub.trialEndsAt.filter fun t => now < t).getD now
    atomically (fun _ => .extendTrial sub.tenantId)
      (extendTrialTx sub (start + days * dayMs))
  | .suspend => do
    let _ ← atomically (fun _ => .plain) (transition tenantId .adminSuspend noPatch)
    return ()
  | .reactivate => do
    let now ← look (·.now)
    atomically (fun _ => .plain) (reactivateTx sub now)
  | .cancel => do
    let _ ← atomically (fun _ => .plain) (transition tenantId .cancel noPatch)
    return ()
  | .changePlan planCode => do
    let plan ← look fun db => db.plans.rows.find? fun plan => plan.code = planCode
    let plan ← getOr plan (.notFound "Plan not found")
    atomically (fun _ => .plain) (editSubscription sub (planIdEdit plan.id))
    logged sub "PLAN_CHANGED"

/-! ### Side by side -/

inductive LifecycleRequest
  /-- Time passes. -/
  | tick (ms : ℕ)
  /-- A plan is made or edited. -/
  | setPlan (plan : Plan)
  /-- A subscription is looked at, and made if there is none. -/
  | getSubscription (tenantId : ℕ)
  | subscribe (tenantId : ℕ) (input : SubscribeInput) (circumstances : Circumstances)
  | cancel (tenantId : ℕ) (circumstances : Circumstances)
  | payInvoice (tenantId invoiceId : ℕ)
  | runCycle
  | webhook (evt : BillingWebhookEvent)
  | platformAction (tenantId : ℕ) (action : PlatformAction)

/-- A webhook is answered, with the event that it was about. -/
abbrev LifecycleAnswer := Option (String × WebhookResult)

def LifecycleRequest.run : LifecycleRequest → BillingMethod LifecycleAnswer
  | .tick ms => do
    atomically (fun _ => .plain) (update fun db => { db with now := db.now + ms })
    return none
  | .setPlan plan => do
    atomically (fun _ => .plain) (update fun db => { db with plans := db.plans.put plan })
    return none
  | .getSubscription tenantId => do
    let _ ← ensureSubscription tenantId
    return none
  | .subscribe tenantId input circumstances => do
    SaasBilling.subscribe tenantId input circumstances
    return none
  | .cancel tenantId circumstances => do
    SaasBilling.cancel tenantId circumstances
    return none
  | .payInvoice tenantId invoiceId => do
    SaasBilling.payInvoice tenantId invoiceId
    return none
  | .runCycle => do
    let _ ← SaasBilling.runCycle
    return none
  | .webhook evt => do
    let result ← applyWebhook evt
    return some (evt.eventId, result)
  | .platformAction tenantId action => do
    SaasBilling.platformAction tenantId action
    return none

abbrev LifecycleWorld :=
  World BillingDb LockKey Note ChargeRequest ChargeReply (Except ServiceError LifecycleAnswer)

/-- Nobody has subscribed. -/
structure Unsubscribed (db : BillingDb) (n : ℕ) : Prop where
  plans : ∀ plan ∈ db.plans, plan.id < n
  subscriptions : db.subscriptions = .empty
  invoices : db.invoices = .empty
  events : db.events = []
  counters : ∀ key, db.counters key = 0
  log : db.log = []
  handled : db.handled = []
  periodEnds : db.periodEnds = []
  steps : db.steps = []

/-- The methods side by side. -/
def lifecycle : Machine LifecycleWorld (WorldAction LifecycleRequest ChargeReply) :=
  serve (fun r : LifecycleRequest => r.run.run) Unsubscribed

/-! ### A kitchen on trial -/

/-- A kitchen on trial that nobody has looked at. -/
def newKitchen : BillingDb where
  now := 1000
  plans := .put (.put (.put .empty ⟨0, "starter", 99900, 999000, true⟩)
    ⟨1, "growth", 249900, 2499000, true⟩) ⟨2, "chain", 799900, 7999000, true⟩
  subscriptions := .empty
  tenantStatus id := if id = 7 then some .trial else none
  tenantTrialEndsAt _ := some 5000
  invoices := .empty
  events := []
  counters _ := 0
  log := []
  handled := []
  periodEnds := []
  steps := []

theorem newKitchen_unsubscribed : Unsubscribed newKitchen 3 :=
  ⟨by decide, rfl, rfl, rfl, fun _ => rfl, rfl, rfl, rfl, rfl⟩

/-- Its usage fits, and the provider does as it is asked. -/
def mockCircumstances : Circumstances := ⟨true, true, "mock", some ⟨"sub_7", none, true⟩⟩

def subscribeMonthly : LifecycleRequest := .subscribe 7 ⟨"growth", .monthly⟩ mockCircumstances

/-- A request that is run as far as it goes. -/
def alone (slot : ℕ) (r : LifecycleRequest) : List (WorldAction LifecycleRequest ChargeReply) :=
  .start slot r :: WorldAction.steps slot 60

/-- A request with what the provider answers. -/
def answered (slot : ℕ) (r : LifecycleRequest) (reply : ChargeReply) :
    List (WorldAction LifecycleRequest ChargeReply) :=
  alone slot r ++ .reply slot reply :: WorldAction.steps slot 30

/-- The end of a run from there. -/
def afterRun (as : List (WorldAction LifecycleRequest ChargeReply)) : LifecycleWorld :=
  lifecycle.run (.atRest newKitchen 3) as

end StelloKitchens.SaasBilling
