import StelloKitchens.Billing.Orders
import StelloKitchens.Shared.Service

/-!
# Scan-and-order requests

Diners send what they want to order from a table or a kiosk, and a user accepts or rejects each
request. To accept one is a sequence of commits: the request is claimed, its items are punched
into an order, and it becomes accepted with the next token number. If the order fails, the request
is put back.

## Main definitions

* `OrderRequest`, `Round`, `ScanDb` — the requests, and the rounds that were punched for them.
* `createRequest`, `accept`, `reject` — the methods.
* `scanOrders` — all of them side by side.
-/

namespace StelloKitchens.ScanOrder

open Checked Tx Method Service
open Billing (BillingDb BillingError Menu RoundInput RowId ScanInput)

/-! ### Tables -/

inductive RequestStatus
  | pending
  | processing
  | accepted
  | rejected
  deriving DecidableEq

structure OrderRequest where
  id : ℕ
  tenantId : String
  outletId : String
  tableId : Option String
  /-- A diner at a table, or one who takes away. -/
  dineIn : Bool
  customerName : Option String
  customerPhone : Option String
  round : RoundInput
  status : RequestStatus
  orderId : Option RowId
  tokenNumber : Option ℕ
  decidedAt : Option Time
  /-- The last accept that claimed it, which no statement reads. -/
  handler : Option ℕ

namespace OrderRequest

/-- The request is claimed by an accept. -/
def claim (handler : ℕ) (r : OrderRequest) : OrderRequest :=
  { r with status := .processing, handler := some handler }

def putBack (r : OrderRequest) : OrderRequest := { r with status := .pending }

def accept (orderId : RowId) (tokenNumber : ℕ) (now : Time) (r : OrderRequest) : OrderRequest :=
  { r with
    status := .accepted
    orderId := some orderId
    tokenNumber := some tokenNumber
    decidedAt := some now }

def reject (now : Time) (r : OrderRequest) : OrderRequest :=
  { r with status := .rejected, decidedAt := some now }

def scanInput (req : OrderRequest) : ScanInput :=
  ⟨req.outletId, req.dineIn, req.tableId, req.customerName, req.customerPhone, req.round⟩

end OrderRequest

/-- A round of items that was punched to the kitchen for a request. -/
structure Round where
  requestId : ℕ
  orderId : RowId
  deriving DecidableEq

structure ScanDb where
  billing : BillingDb
  orderRequests : KeyedTable OrderRequest.id
  /-- The rounds as they were punched, which no statement reads. -/
  rounds : List Round

/-- What transactions lock. -/
inductive LockKey
  | request (id : ℕ)
  | billing (k : Billing.LockKey)
  deriving DecidableEq

/-- Where a method may fail after it has claimed a request, other than by its own checks. -/
inductive Point
  /-- The request is read again. -/
  | found
  /-- The transaction of the order. -/
  | ingest
  /-- What follows the commit of the order: its signals, and its read-back. -/
  | readBack
  /-- The request is put back. -/
  | putBack
  /-- The last token number is read. -/
  | lastToken
  /-- The request becomes accepted. -/
  | finish
  deriving DecidableEq

/-- What commits. -/
inductive Note
  | plain
  | claimed (requestId : ℕ) (fails : List Point)
  | punched (requestId : ℕ)
  | putBack (requestId : ℕ)
  | accepted (requestId tokenNumber : ℕ)
  | rejected (requestId : ℕ)
  deriving DecidableEq

abbrev ScanTx (α : Type) := ServiceTx ScanDb LockKey α

abbrev ScanMethod := ServiceMethod ScanDb LockKey Note

/-! ### Statements -/

namespace ScanDb

def findRequest (db : ScanDb) (id : ℕ) : Option OrderRequest := db.orderRequests.find? id

/-- Update a request. -/
def updateRequest (id : ℕ) (f : OrderRequest → OrderRequest) (hf : ∀ r, (f r).id = r.id)
    (db : ScanDb) : ScanDb :=
  { db with orderRequests := db.orderRequests.modify (fun r => r.id = id) f hf }

/-- The largest token number of an outlet. -/
def lastToken (db : ScanDb) (outletId : String) : ℕ :=
  ((db.orderRequests.rows.filter fun r => r.outletId = outletId).filterMap (·.tokenNumber)).max?.getD
    0

end ScanDb

/-- The failures of the order's transaction. -/
def orderError : BillingError → ServiceError
  | .badRequest message => .badRequest message
  | .notFound message => .notFound message
  | .forbidden message => .forbidden message
  | .database => .database
  | .p2002 => .p2002
  | .rejectOp message => .badRequest message

/-- A statement of the method fails, if it is one of these. -/
def attempt (fails : List Point) (p : Point) : ScanMethod Unit := guardOr (p ∉ fails) .database

/-! ### Diners -/

/-- Who sends a request, as told by the code on the table or the kiosk. -/
structure Sender where
  tenantId : String
  outletId : String
  tableId : Option String
  dineIn : Bool

structure SubmitOrderRequestInput where
  round : RoundInput
  customerName : Option String
  customerPhone : Option String

/-- What is sent has to be on the menu and for sale. -/
def checkRound (menu : Menu) (outletId : String) (round : RoundInput) : Except ServiceError Unit := do
  round.items.forM fun line => do
    let item ← orThrow (menu.items.find? fun i => i.id = line.itemId ∧ i.outletId = outletId)
      (.badRequest "An item is no longer on the menu")
    ensure (item.inStock = true) (.badRequest (item.name ++ " is out of stock"))
    ensure (Billing.isWithinWindow item.availableStart item.availableEnd menu.minutes = true)
      (.badRequest (item.name ++ " is not available right now"))
  round.combos.forM fun line => do
    let combo ← orThrow (menu.combos.find? fun c => c.id = line.comboId ∧ c.outletId = outletId)
      (.badRequest "A combo is no longer on the menu")
    ensure (combo.inStock = true) (.badRequest (combo.name ++ " is unavailable"))

/-- A request as it is created. -/
def Sender.request (sender : Sender) (input : SubmitOrderRequestInput) (id : ℕ) : OrderRequest where
  id := id
  tenantId := sender.tenantId
  outletId := sender.outletId
  tableId := sender.tableId
  dineIn := sender.dineIn
  customerName := input.customerName
  customerPhone := input.customerPhone
  round := input.round
  status := .pending
  orderId := none
  tokenNumber := none
  decidedAt := none
  handler := none

def createRequestTx (sender : Sender) (input : SubmitOrderRequestInput) : ScanTx Unit := do
  let id ← draw
  acquire (.request id)
  update fun db => { db with orderRequests := db.orderRequests.put (sender.request input id) }

/-- A diner submits a cart. -/
def createRequest (sender : Sender) (menu : Menu) (input : SubmitOrderRequestInput) :
    ScanMethod Unit := do
  ExceptT.mk (.done (checkRound menu sender.outletId input.round))
  autocommit .plain (createRequestTx sender input)

/-! ### Staff -/

def requireRequest (user : AuthUser) (requestId : ℕ) : ScanMethod OrderRequest := do
  let row ← look fun db => db.findRequest requestId
  let req ← getOr (row.filter fun r => r.tenantId = user.tenantId) (.notFound "Order request not found")
  assertOutlet user req.outletId
  return req

/-- Claim a pending request, under a number that is drawn for the accept. -/
def claimTx (user : AuthUser) (requestId : ℕ) : ScanTx Bool := do
  let handler ← draw
  updateWhere (.request requestId)
    (fun db => (db.findRequest requestId).any fun r =>
      r.tenantId = user.tenantId ∧ r.outletId ∈ user.outletIds ∧ r.status = .pending)
    (·.updateRequest requestId (·.claim handler) fun _ => rfl)

/-- Punch the items of a request. -/
def punchTx (req : OrderRequest) (menu : Menu) : ScanTx RowId := do
  let orderId ← (Billing.ingestScanOrder menu req.scanInput).onPart ScanDb.billing
    (fun billing db => { db with billing := billing }) LockKey.billing orderError
  update fun db => { db with rounds := db.rounds ++ [⟨req.id, orderId⟩] }
  return orderId

/-- The order of a request: after its commit the kitchen is told, and the order is read back. -/
def ingestScanOrder (req : OrderRequest) (menu : Menu) (fails : List Point) :
    ScanMethod RowId := do
  attempt fails .ingest
  let orderId ← autocommit (.punched req.id) (punchTx req menu)
  attempt fails .readBack
  return orderId

def putBackTx (requestId : ℕ) : ScanTx Bool :=
  updateWhere (.request requestId)
    (fun db => (db.findRequest requestId).any fun r => r.status = .processing)
    (·.updateRequest requestId (·.putBack) fun _ => rfl)

/-- A failed order must not strand the request in the claim state. -/
def putBack (requestId : ℕ) (fails : List Point) (e : ServiceError) : ScanMethod RowId := do
  attempt fails .putBack
  let _ ← autocommit (.putBack requestId) (putBackTx requestId)
  throw e

/-- Decide on a request, whatever its status is. -/
def decideTx (requestId : ℕ) (f : OrderRequest → OrderRequest) (hf : ∀ r, (f r).id = r.id) :
    ScanTx Bool :=
  updateWhere (.request requestId) (fun db => (db.findRequest requestId).isSome)
    (·.updateRequest requestId f hf)

/-- Accept a request; some of its statements may fail. -/
def accept (user : AuthUser) (requestId : ℕ) (menu : Menu) (now : Time) (fails : List Point) :
    ScanMethod Unit := do
  let claimed ← atomically (fun hit => if hit then .claimed requestId fails else .plain)
    (claimTx user requestId)
  guardOr (claimed = true) (.badRequest "Request already decided or unavailable")
  attempt fails .found
  let req ← requireRequest user requestId
  let orderId ← tryCatch (ingestScanOrder req menu fails) (putBack req.id fails)
  attempt fails .lastToken
  let last ← look fun db => db.lastToken req.outletId
  attempt fails .finish
  let updated ← autocommit (.accepted req.id (last + 1))
    (decideTx req.id (·.accept orderId (last + 1) now) fun _ => rfl)
  guardOr (updated = true) .database

/-- Reject a request that was pending when it was read. -/
def reject (user : AuthUser) (requestId : ℕ) (now : Time) : ScanMethod Unit := do
  let req ← requireRequest user requestId
  guardOr (req.status = .pending) (.badRequest "Request already decided")
  let updated ← autocommit (.rejected req.id) (decideTx req.id (·.reject now) fun _ => rfl)
  guardOr (updated = true) .database

/-! ### Side by side -/

inductive ScanRequest
  | createRequest (sender : Sender) (menu : Menu) (input : SubmitOrderRequestInput)
  | accept (user : AuthUser) (requestId : ℕ) (menu : Menu) (now : Time) (fails : List Point)
  | reject (user : AuthUser) (requestId : ℕ) (now : Time)

def ScanRequest.run : ScanRequest → ScanMethod Unit
  | .createRequest sender menu input => ScanOrder.createRequest sender menu input
  | .accept user requestId menu now fails => ScanOrder.accept user requestId menu now fails
  | .reject user requestId now => ScanOrder.reject user requestId now

abbrev ScanWorld := World ScanDb LockKey Note Empty Empty (Except ServiceError Unit)

/-- The methods side by side, before the first request. -/
def scanOrders : Machine ScanWorld (WorldAction ScanRequest Empty) :=
  serve (fun r : ScanRequest => r.run.run) fun db _ =>
    db.orderRequests = .empty ∧ db.rounds = []

/-! ### A kiosk -/

/-- An outlet before its first bill. -/
def kioskDb : ScanDb where
  billing :=
    { outlets := .put .empty ⟨"o", 1, 1, 0, 1, none⟩
      tables := .empty
      orders := .empty
      items := .empty
      kots := .empty
      payments := []
      coupons := .empty
      customers := .empty
      otps := .empty
      giftCards := .empty
      unsplits := []
      comboChoices := []
      loyaltyTransactions := []
      otpUses := []
      edgeInvoices := [] }
  orderRequests := .empty
  rounds := []

/-- The menu has a dosa for 100. -/
def kioskMenu : Menu :=
  ⟨[⟨"dosa", "o", "Dosa", .hundred, 0, true, none, none, [], [], none⟩], [], [], [], 0⟩

/-- A diner takes a dosa away. -/
def askForDosa : ScanRequest :=
  .createRequest ⟨"t", "o", none, false⟩ kioskMenu
    ⟨⟨[⟨"dosa", none, [], 1, Nat.one_pos, none, none, none⟩], [], by simp⟩, none, none⟩

def cashier : AuthUser := ⟨"u", "t", ["o"]⟩

/-- The cashier accepts a request, and some statements fail. -/
def acceptRequest (requestId : ℕ) (fails : List Point) : ScanRequest :=
  .accept cashier requestId kioskMenu 1000 fails

end StelloKitchens.ScanOrder
