import StelloKitchens.Shared.Service
import Mathlib.Algebra.Order.Floor.Ring
import Mathlib.Data.List.Sort
import Mathlib.Data.Rat.Floor

/-!
# Webhooks

Events are delivered to the endpoints that tenants have subscribed. A delivery is a row: a worker
claims the rows that are due, for some minutes, and attempts one after another; a failed attempt is
retried later, and after so many the delivery has failed. Owners can send a test event, and ask for
a delivery once more; these attempts are made at once.

## Main definitions

* `WebhookEndpoint`, `WebhookDelivery`, `WebhookDb` — the tables.
* `onEvent`, `testSend`, `redeliver`, `processDue`, `attempt` — the service.
* `webhooks` — the service side by side.
-/

namespace StelloKitchens.Webhooks

open Checked Tx Method Service

/-! ### Tables -/

structure WebhookEndpoint where
  id : ℕ
  tenantId : String
  outletId : Option String
  url : String
  events : List String
  isActive : Bool
  deriving DecidableEq

inductive DeliveryStatus
  | pending
  | succeeded
  | failed
  deriving DecidableEq

structure WebhookDelivery where
  id : ℕ
  tenantId : String
  endpointId : ℕ
  eventId : String
  eventType : String
  payload : String
  status : DeliveryStatus
  attempts : ℕ
  nextAttemptAt : Option Time
  lastStatusCode : Option ℕ
  lastError : Option String
  durationMs : Option ℤ
  deliveredAt : Option Time
  createdAt : Time
  deriving DecidableEq

/-- An attempt at a delivery, and the status of the delivery before and after it was recorded. -/
structure Attempt where
  delivery : ℕ
  worker : ℕ
  automatic : Bool
  outcome : Option (DeliveryStatus × DeliveryStatus)
  deriving DecidableEq

structure WebhookDb where
  now : Time
  endpoints : KeyedTable WebhookEndpoint.id
  deliveries : KeyedTable WebhookDelivery.id
  /-- The attempts, who has taken each delivery last, and whether one was taken while it was
  attempted, or attempted by who had not taken it last; no statement reads these. -/
  attempts : List Attempt
  holder : ℕ → Option ℕ
  crossed : Bool

inductive LockKey
  | endpoint (id : ℕ)
  | delivery (id : ℕ)
  deriving DecidableEq

/-- What a commit is about: deliveries that a pass claims; one that a request takes, to be attempted
at once; an attempt that begins. -/
inductive Note
  | plain
  | claim (ids : List ℕ)
  | manual (id : ℕ)
  | begin (id worker : ℕ)
  deriving DecidableEq

/-- The request to an endpoint. -/
structure WebhookCall where
  url : String
  event : String
  delivery : ℕ
  body : String

/-- The status of the response, or why there is none; and the random number for the next try. -/
structure WebhookReply where
  response : Except String ℕ
  random : ℚ

abbrev WebhookTx (α : Type) := ServiceTx WebhookDb LockKey α

abbrev WebhookMethod := Method WebhookDb LockKey Note WebhookCall WebhookReply ServiceError

/-! ### Statements -/

namespace WebhookDelivery

/-- A pass claims the delivery until this time. -/
def lease (leasedUntil : Time) (d : WebhookDelivery) : WebhookDelivery :=
  { d with nextAttemptAt := some leasedUntil }

/-- The delivery is to be attempted at once. -/
def reopen (d : WebhookDelivery) : WebhookDelivery :=
  { d with status := .pending, nextAttemptAt := none }

def disable (attempts : ℕ) (d : WebhookDelivery) : WebhookDelivery :=
  { d with status := .failed, attempts := attempts, nextAttemptAt := none,
           lastError := some "Endpoint disabled" }

def succeed (attempts : ℕ) (statusCode : Option ℕ) (durationMs : ℤ) (deliveredAt : Time)
    (d : WebhookDelivery) : WebhookDelivery :=
  { d with status := .succeeded, attempts := attempts, lastStatusCode := statusCode,
           lastError := none, durationMs := some durationMs, deliveredAt := some deliveredAt,
           nextAttemptAt := none }

/-- The attempt has failed; it is retried at this time, or not at all. -/
def fail (attempts : ℕ) (statusCode : Option ℕ) (error : String) (durationMs : ℤ)
    (nextAttemptAt : Option Time) (d : WebhookDelivery) : WebhookDelivery :=
  { d with status := if nextAttemptAt = none then .failed else .pending, attempts := attempts,
           lastStatusCode := statusCode, lastError := some (sliceUtf16 500 error),
           durationMs := some durationMs, nextAttemptAt := nextAttemptAt }

end WebhookDelivery

/-- The attempt has not been recorded. -/
def Attempt.Open (a : Attempt) : Prop := a.outcome = none

instance (a : Attempt) : Decidable a.Open := inferInstanceAs (Decidable (a.outcome = none))

/-- The worker's attempt at the delivery is recorded. -/
def Attempt.record (delivery worker : ℕ) (outcome : Option (DeliveryStatus × DeliveryStatus))
    (a : Attempt) : Attempt :=
  if a.delivery = delivery ∧ a.worker = worker ∧ a.Open then { a with outcome := outcome } else a

namespace WebhookDb

def findDelivery (db : WebhookDb) (id : ℕ) : Option WebhookDelivery := db.deliveries.find? id

def findEndpoint (db : WebhookDb) (id : ℕ) : Option WebhookEndpoint := db.endpoints.find? id

/-- A delivery with its endpoint. -/
def withEndpoint (db : WebhookDb) (id : ℕ) : Option (WebhookDelivery × WebhookEndpoint) := do
  let d ← db.findDelivery id
  let endpoint ← db.findEndpoint d.endpointId
  return (d, endpoint)

/-- The deliveries that a pass can claim. -/
def due (db : WebhookDb) (now : Time) : List WebhookDelivery :=
  (db.deliveries.rows.filter fun d => d.status = .pending ∧ d.nextAttemptAt.any (· ≤ now)).insertionSort
    fun d d' => d.nextAttemptAt.getD 0 ≤ d'.nextAttemptAt.getD 0

/-- Someone takes deliveries. -/
def take (ids : List ℕ) (worker : ℕ) (db : WebhookDb) : WebhookDb :=
  { db with
    holder := fun id => if id ∈ ids then some worker else db.holder id
    crossed := db.crossed || db.attempts.any fun a => a.delivery ∈ ids ∧ a.Open }

/-- A pass claims deliveries. -/
def claim (ids : List ℕ) (pass : ℕ) (leasedUntil : Time) (db : WebhookDb) : WebhookDb :=
  { db with
    deliveries := db.deliveries.modify (fun d => d.id ∈ ids) (·.lease leasedUntil) fun _ => rfl
  }.take ids pass

def create (rows : List WebhookDelivery) (db : WebhookDb) : WebhookDb :=
  { db with deliveries := rows.foldl .put db.deliveries }

/-- A delivery is taken to be attempted once more. -/
def reopen (id worker : ℕ) (db : WebhookDb) : WebhookDb :=
  { db with
    deliveries := db.deliveries.modify (fun d => d.id = id) (·.reopen) fun _ => rfl
  }.take [id] worker

/-- An attempt begins. -/
def begin (id worker : ℕ) (automatic : Bool) (db : WebhookDb) : WebhookDb :=
  { db with
    attempts := db.attempts ++ [⟨id, worker, automatic, none⟩]
    crossed := db.crossed || db.holder id ≠ some worker }

/-- The outcome of an attempt is recorded. -/
def finish (id worker : ℕ) (f : WebhookDelivery → WebhookDelivery) (hf : ∀ d, (f d).id = d.id)
    (db : WebhookDb) : WebhookDb :=
  { db with
    deliveries := db.deliveries.modify (fun d => d.id = id) f hf
    attempts := db.attempts.map (·.record id worker
      ((db.findDelivery id).map fun d => (d.status, (f d).status))) }

end WebhookDb

/-! ### Attempts -/

def leaseMs : ℤ := 2 * 60000

def retryBackoffMs : List ℤ :=
  [30000, 2 * 60000, 10 * 60000, 60 * 60000, 6 * 60 * 60000, 24 * 60 * 60000]

def maxAttempts : ℕ := retryBackoffMs.length + 1

/-- How long to wait after so many failed attempts, within a tenth of the schedule. -/
def nextRetryDelay (failedAttempts : ℕ) (random : ℚ) : Option ℤ :=
  if failedAttempts ≥ maxAttempts then none
  else
    let base := retryBackoffMs.getD (min failedAttempts retryBackoffMs.length - 1) 0
    some ⌊(base : ℚ) * (9 / 10 + random * (2 / 10)) + 1 / 2⌋

/-- Record the outcome of an attempt at a delivery that is there. -/
def finish (id worker : ℕ) (f : WebhookDelivery → WebhookDelivery) (hf : ∀ d, (f d).id = d.id) :
    WebhookMethod Unit := do
  let finished ← atomically (fun _ => .plain) (updateWhere (.delivery id)
    (fun db => (db.findDelivery id).isSome) (·.finish id worker f hf))
  guardOr (finished = true) .database

/-- The error of an attempt, by the response. -/
def WebhookReply.error (reply : WebhookReply) : Option String :=
  match reply.response with
  | .ok status => if status < 200 ∨ 300 ≤ status then some ("HTTP " ++ toString status) else none
  | .error e => truthy (some e)

/-- One attempt at a delivery: call the endpoint, record the outcome, and schedule a retry if one is
needed. -/
def attempt (worker : ℕ) (automatic : Bool) (id : ℕ) : WebhookMethod Unit := do
  let found ← look (·.withEndpoint id)
  let (d, endpoint) ← getOr found .database
  atomically (fun _ => .begin id worker) (update (·.begin id worker automatic))
  let attempts := d.attempts + 1
  if endpoint.isActive = false ∧ d.eventType ≠ "webhook.test" then
    finish id worker (·.disable attempts) fun _ => rfl
  else do
    let started ← look (·.now)
    let reply ← ask ⟨endpoint.url, d.eventType, d.id, d.payload⟩
    let ended ← look (·.now)
    let statusCode := reply.response.toOption
    match reply.error with
    | none => finish id worker (·.succeed attempts statusCode (ended - started) ended) fun _ => rfl
    | some error => do
      let delay := if d.eventType = "webhook.test" then none
        else nextRetryDelay attempts reply.random
      finish id worker (·.fail attempts statusCode error (ended - started) (delay.map (ended + ·)))
        fun _ => rfl

/-! ### Events -/

def webhookEventKeys : List String :=
  ["order.created", "order.settled", "order.cancelled", "kot.status", "item.availability",
    "stock.low"]

/-- An event, with the text of its envelope. -/
structure DomainEvent where
  id : String
  type : String
  tenantId : String
  outletId : Option String
  payload : String

/-- A delivery of an event to an endpoint, as it is created. -/
def DomainEvent.row (event : DomainEvent) (endpointId : ℕ) (nextAttemptAt : Option Time)
    (createdAt : Time) (id : ℕ) : WebhookDelivery where
  id := id
  tenantId := event.tenantId
  endpointId := endpointId
  eventId := event.id
  eventType := event.type
  payload := event.payload
  status := .pending
  attempts := 0
  nextAttemptAt := nextAttemptAt
  lastStatusCode := none
  lastError := none
  durationMs := none
  deliveredAt := none
  createdAt := createdAt

/-- Create deliveries, each to an endpoint that is still there. -/
def createManyTx (event : DomainEvent) (nextAttemptAt : Time) :
    List WebhookEndpoint → List WebhookDelivery → WebhookTx Unit
  | [], rows => update (·.create rows)
  | e :: targets, rows => do
    acquire (.endpoint e.id)
    let found ← query (·.findEndpoint e.id)
    let _ ← require found .database
    let createdAt ← query (·.now)
    let id ← draw
    createManyTx event nextAttemptAt targets
      (rows ++ [event.row e.id (some nextAttemptAt) createdAt id])

/-- One delivery for each endpoint that is subscribed to the event. -/
def onEvent (event : DomainEvent) : WebhookMethod ℕ := do
  if event.type ∉ webhookEventKeys then return 0
  else do
    let endpoints ← look fun db =>
      db.endpoints.rows.filter fun e => e.tenantId = event.tenantId ∧ e.isActive = true
    let targets := endpoints.filter fun e => event.type ∈ e.events ∧
      ((truthy e.outletId) = none ∨ e.outletId = event.outletId)
    if targets = [] then return 0
    else do
      let now ← look (·.now)
      atomically (fun _ => .plain) (createManyTx event now targets [])
      return targets.length

/-! ### Requests of owners -/

/-- Create the delivery of a test event. -/
def createTestTx (event : DomainEvent) (endpointId : ℕ) : WebhookTx (ℕ × ℕ) := do
  acquire (.endpoint endpointId)
  let found ← query (·.findEndpoint endpointId)
  let _ ← require found .database
  let createdAt ← query (·.now)
  let id ← draw
  let worker ← draw
  update fun db => (db.create [event.row endpointId none createdAt id]).take [id] worker
  return (id, worker)

/-- Send a test event at once. -/
def testSend (user : AuthUser) (endpointId : ℕ) (eventId payload : String) : WebhookMethod Unit := do
  let row ← look fun db =>
    (db.findEndpoint endpointId).filter fun e => e.tenantId = user.tenantId
  let endpoint ← getOr row (.notFound "Webhook not found")
  let (id, worker) ← atomically (fun created => .manual created.1) (createTestTx
    ⟨eventId, "webhook.test", user.tenantId, endpoint.outletId, payload⟩ endpoint.id)
  attempt worker false id

def reopenTx (id : ℕ) : WebhookTx ℕ := do
  let worker ← draw
  let reopened ← updateWhere (.delivery id) (fun db => (db.findDelivery id).isSome)
    (·.reopen id worker)
  check (reopened = true) .database
  return worker

/-- Attempt a delivery once more, at once. -/
def redeliver (user : AuthUser) (id : ℕ) : WebhookMethod Unit := do
  let row ← look fun db => (db.findDelivery id).filter fun d => d.tenantId = user.tenantId
  let d ← getOr row (.notFound "Delivery not found")
  let worker ← atomically (fun _ => .manual d.id) (reopenTx d.id)
  attempt worker false d.id

/-! ### The worker -/

/-- Claim up to `batch` deliveries that are due, but for those that others have locked. -/
def claimTx (now : Time) (batch : ℕ) (skipped : List ℕ) : WebhookTx (ℕ × List ℕ) := do
  let pass ← draw
  let picked ← query fun db =>
    (((db.due now).filter fun d => d.id ∉ skipped).take batch).map (·.id)
  acquireAll (picked.map .delivery)
  let ids ← query fun db => ((db.due now).filter fun d => d.id ∈ picked).map (·.id)
  update (·.claim ids pass (now + leaseMs))
  return (pass, ids)

/-- One pass of the worker: how many deliveries it has attempted. -/
def processDue (batch : ℕ) (skipped : List ℕ) : WebhookMethod ℕ :=
  tryCatch (do
    let now ← look (·.now)
    let (pass, ids) ← atomically (fun claimed => .claim claimed.2) (claimTx now batch skipped)
    let _ ← ids.mapM (attempt pass true)
    return ids.length)
    fun _ => return 0

/-! ### Endpoints -/

def saveEndpointTx (row : WebhookEndpoint) : WebhookTx Unit := do
  acquire (.endpoint row.id)
  update fun db => { db with endpoints := db.endpoints.put row }

/-- Remove an endpoint with its deliveries; none to it is created while it is locked. -/
def removeTx (id : ℕ) : WebhookTx Unit := do
  acquire (.endpoint id)
  let ids ← query fun db => (db.deliveries.rows.filter fun d => d.endpointId = id).map (·.id)
  acquireAll (ids.map .delivery)
  update fun db => { db with
    endpoints := db.endpoints.delete fun e => e.id = id
    deliveries := db.deliveries.delete fun d => d.id ∈ ids }

/-! ### Side by side -/

inductive WebhookRequest
  /-- Time passes. -/
  | tick (ms : ℕ)
  /-- An endpoint is created or changed. -/
  | saveEndpoint (row : WebhookEndpoint)
  | removeEndpoint (id : ℕ)
  | onEvent (event : DomainEvent)
  | testSend (user : AuthUser) (endpointId : ℕ) (eventId payload : String)
  | redeliver (user : AuthUser) (id : ℕ)
  | processDue (batch : ℕ) (skipped : List ℕ)

def WebhookRequest.run : WebhookRequest → WebhookMethod Unit
  | .tick ms => atomically (fun _ => .plain) (update fun db => { db with now := db.now + ms })
  | .saveEndpoint row => atomically (fun _ => .plain) (saveEndpointTx row)
  | .removeEndpoint id => atomically (fun _ => .plain) (removeTx id)
  | .onEvent event => do
    let _ ← Webhooks.onEvent event
    return ()
  | .testSend user endpointId eventId payload => Webhooks.testSend user endpointId eventId payload
  | .redeliver user id => Webhooks.redeliver user id
  | .processDue batch skipped => do
    let _ ← Webhooks.processDue batch skipped
    return ()

abbrev WebhookWorld :=
  World WebhookDb LockKey Note WebhookCall WebhookReply (Except ServiceError Unit)

/-- Before the first delivery. -/
structure NoDeliveries (db : WebhookDb) : Prop where
  deliveries : db.deliveries = .empty
  attempts : db.attempts = []
  holder : ∀ id, db.holder id = none
  crossed : db.crossed = false

/-- The service side by side. -/
def webhooks : Machine WebhookWorld (WorldAction WebhookRequest WebhookReply) :=
  serve (fun r : WebhookRequest => r.run.run) fun db _ => NoDeliveries db

end StelloKitchens.Webhooks
