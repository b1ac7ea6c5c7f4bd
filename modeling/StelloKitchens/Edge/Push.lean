import StelloKitchens.Edge.Lifecycle

/-!
# Pushing the outbox

One round of a push selects the due entries, builds their operations and waits for the answer,
which is then applied entry by entry. Between the two the device goes on working: the entries in
flight stay pending.

## Main definitions

* `orderPayload` — the order as it is sent.
* `EdgeDb.pushSend` — the first half of a round, up to the request.
* `EdgeDb.applyReply` — the second half, the answer applied to the entries that were sent.
-/

namespace StelloKitchens

/-! ### The payload of an order -/

def itemLineInput (l : OrderLine) : Option EdgeOrderLineInput :=
  match l.source with
  | .item itemId variationId addonIds => some
    { itemId, variationId, addonIds
      quantity := l.quantity
      note := truthy l.note
      unitPrice := l.unitPrice
      taxRate := l.taxRate
      prepStatus := l.prepStatus
      preppedAt := l.preppedAt.map Stamp.iso }
  | .combo .. => none

def comboLineInput (l : OrderLine) : Option EdgeComboLineInput :=
  match l.source with
  | .item .. => none
  | .combo comboId selections => some
    { comboId, selections
      quantity := l.quantity
      note := truthy l.note
      unitPrice := l.unitPrice
      taxRate := l.taxRate
      prepStatus := l.prepStatus
      preppedAt := l.preppedAt.map Stamp.iso }

/-- The order as it is sent to the cloud: items first, then combos. -/
def orderPayload (o : Order) : EdgeOrderInput where
  clientId := o.clientId.text
  orderType := o.orderType
  tableId := truthy o.tableId
  customerName := truthy o.customerName
  customerPhone := truthy o.customerPhone
  deliveryAddress := truthy o.deliveryAddress
  items := o.lines.filterMap itemLineInput
  combos := o.lines.filterMap comboLineInput
  status := o.status
  payments := if o.status = .settled then o.payments else []
  manualDiscount := o.manualDiscount
  couponCode := truthy o.couponCode
  couponDiscount := o.couponDiscount
  subtotal := o.totals.subtotal
  taxAmount := o.totals.taxAmount
  total := o.totals.total
  billNo := o.billNo
  createdAt := .iso o.createdAt
  closedAt := .iso (o.closedAt.getD o.clientUpdatedAt)
  createdByStaffId := truthy o.createdByStaffId
  closedByStaffId := truthy o.closedByStaffId
  cancelReason := truthy o.cancelReason

/-! ### Sending -/

def pushBatch : ℕ := 50

/-- The entries of a request and the operations built for them. -/
structure PushRequest where
  due : List OutboxEntry
  ops : List EdgeOutboxOp
  sentAt : Time
  deriving DecidableEq

structure PushReply where
  results : List EdgeOpResult
  serverTime : Stamp
  deriving DecidableEq

/-- The final status of an entry, by the status of its result. -/
def OutboxStatus.ofResult : EdgeOpStatus → OutboxStatus
  | .rejected => .rejected
  | .conflict => .conflict
  | _ => .done

/-- The sync state of an order, by the status of its result. -/
def SyncState.ofResult : EdgeOpStatus → SyncState
  | .rejected => .rejected
  | .conflict => .conflict
  | _ => .synced

/-- An order with the answer of the cloud. -/
def OrderRow.answered (r : EdgeOpResult) (x : OrderRow) : OrderRow :=
  { x with
    dirty := false
    syncState := .ofResult r.status
    serverId := truthy r.serverId <|> x.serverId
    billNumber := truthy r.billNumber <|> x.billNumber }

theorem OrderRow.clientId_answered (r : EdgeOpResult) (x : OrderRow) :
    (x.answered r).clientId = x.clientId := rfl

namespace OutboxEntry

/-- The entry with its final status. -/
def closed (now : Time) (r : EdgeOpResult) (x : OutboxEntry) : OutboxEntry :=
  { x with
    status := .ofResult r.status
    attempts := x.attempts + 1
    doneAt := some now
    lastError := truthy r.message }

/-- The entry put off until a next attempt. -/
def postponed (attempts : ℕ) (at_ : Time) (r : EdgeOpResult) (x : OutboxEntry) : OutboxEntry :=
  { x with
    attempts := attempts
    nextAttemptAt := at_
    lastError := some ((truthy r.message).getD "retry") }

/-- The entry of an order that is no longer on the device. -/
def missing (x : OutboxEntry) : OutboxEntry :=
  { x with status := .rejected, lastError := some "order missing locally" }

theorem key_closed (now : Time) (r : EdgeOpResult) (x : OutboxEntry) :
    (x.closed now r).key = x.key := rfl

theorem key_postponed (attempts : ℕ) (at_ : Time) (r : EdgeOpResult) (x : OutboxEntry) :
    (x.postponed attempts at_ r).key = x.key := rfl

theorem key_missing (x : OutboxEntry) : x.missing.key = x.key := rfl

end OutboxEntry

namespace EdgeDb

/-- The pending entries whose time has come, oldest first: rows are in the order of their ids. -/
def dueEntries (db : EdgeDb) (now : Time) : List OutboxEntry :=
  (db.outbox.rows.filter fun e => e.status = .pending ∧ e.nextAttemptAt ≤ now).take pushBatch

/-- The operation of an entry; an order that is no longer on the device has none. -/
def buildOp (db : EdgeDb) (e : OutboxEntry) : Option EdgeOutboxOp :=
  match e.key with
  | .order c => (db.get c).map fun row => .order e.key.text (orderPayload row.state)
  | .kotStatus c _ => some (.kotStatus e.key.text c.text e.payload)

/-- Reject the entries of orders that are no longer on the device. -/
def rejectMissing (db : EdgeDb) (due : List OutboxEntry) : EdgeDb :=
  { db with
    outbox := db.outbox.modify
      (fun e => (due.filter fun d => db.buildOp d = none).any (·.id = e.id)) OutboxEntry.missing
      OutboxEntry.key_missing }

/-- Select the due entries and build the request; without operations nothing is sent. -/
def pushSend (db : EdgeDb) (now : Time) : EdgeDb × Option PushRequest :=
  let due := db.dueEntries now
  let ops := due.filterMap db.buildOp
  (db.rejectMissing due, if ops = [] then none else some ⟨due, ops, now⟩)

/-! ### The answer -/

/-- The pause before the next attempt: 5 s doubling up to 10 min, give or take a fifth. -/
def backoffMs (attempts : ℕ) (random : Binary64) : ℤ :=
  let base : Binary64 := .ofRat (min (5000 * 2 ^ (attempts - 1)) (10 * 60 * 1000))
  ⌊(base * (Binary64.ofRat (8 / 10) + random * Binary64.ofRat (4 / 10))).val + 1 / 2⌋

/-- The clock skew measured at the midpoint of the round trip. -/
def recordSkew (db : EdgeDb) (now sentAt : Time) (serverTime : Stamp) : EdgeDb :=
  match serverTime.parse with
  | none => db
  | some server =>
    { db with settings := { db.settings with
        clockSkewMs := ⌊((server : ℚ) - (sentAt + now) / 2) + 1 / 2⌋ } }

/-- File the conflicts of a result under the number printed on the receipt. -/
def fileConflicts (db : EdgeDb) (now : Time) (clientId : Uuid) (r : EdgeOpResult) : EdgeDb :=
  let billNumber := truthy ((db.get clientId).bind (·.state.offlineRef)) <|> truthy r.billNumber
  let rejected := if r.status = .rejected then
    [EdgeConflict.mk .rejected ((truthy r.message).getD "Rejected by the cloud")] else []
  let rows := (rejected ++ r.conflicts).mapIdx fun i c =>
    ⟨db.conflictSeq + 1 + i, clientId, billNumber, c.kind, c.message, now, none, none⟩
  { db with conflicts := db.conflicts ++ rows, conflictSeq := db.conflictSeq + rows.length }

/-- Put an entry off until its next attempt. -/
def postpone (db : EdgeDb) (now : Time) (random : Binary64) (e : OutboxEntry)
    (r : EdgeOpResult) : EdgeDb :=
  let attempts := e.attempts + 1
  { db with
    outbox := db.outbox.modify (fun x => x.id = e.id)
      (OutboxEntry.postponed attempts (now + backoffMs attempts random) r)
      (OutboxEntry.key_postponed _ _ _) }

/-- Close an entry with its final status. -/
def closeEntry (db : EdgeDb) (now : Time) (e : OutboxEntry) (r : EdgeOpResult) : EdgeDb :=
  { db with
    outbox := db.outbox.modify (fun x => x.id = e.id) (OutboxEntry.closed now r)
      (OutboxEntry.key_closed _ _) }

/-- Mark an order with the answer of the cloud. -/
def markSynced (db : EdgeDb) (clientId : Uuid) (r : EdgeOpResult) : EdgeDb :=
  { db with
    orders := db.orders.modify (fun x => x.clientId = clientId) (OrderRow.answered r)
      (OrderRow.clientId_answered _) }

/-- Apply the result of one entry. -/
def applyResult (db : EdgeDb) (now : Time) (random : Binary64) (e : OutboxEntry)
    (r : EdgeOpResult) : EdgeDb :=
  if r.status = .retry then db.postpone now random e r
  else
    let db := db.closeEntry now e r
    match e.key with
    | .order c => (db.markSynced c r).fileConflicts now c r
    | .kotStatus _ _ => db

/-- The entry a result answers: the last one sent under its key. -/
def entryOf (due : List OutboxEntry) (r : EdgeOpResult) : Option OutboxEntry :=
  due.reverse.find? (·.key.text = r.key)

/-- Apply an answer to the entries that were sent; results under other keys are ignored. -/
def applyReply (db : EdgeDb) (now : Time) (random : ℕ → Binary64) (req : PushRequest)
    (reply : PushReply) : EdgeDb :=
  let db := db.recordSkew now req.sentAt reply.serverTime
  reply.results.zipIdx.foldl (fun db (r, i) =>
    (entryOf req.due r).elim db fun e => db.applyResult now (random i) e r) db

end EdgeDb

end StelloKitchens
