import StelloKitchens.Edge.Order

/-!
# The device's database

The tables of the device and the writes its operations are made of: saving an order, queueing an
outbox entry, firing a round to the kitchen, and drawing the next invoice number.

The columns of an order that repeat its state (`status`, `tableId`, `closedAt`,
`clientUpdatedAt`) are read off the state, which every write keeps them equal to.

## Main definitions

* `EdgeDb` — the tables.
* `EdgeDb.save`, `EdgeDb.enqueue`, `EdgeDb.fire`, `EdgeDb.drawBillNo` — the writes.

## Main results

* `EdgeDb.get_save_self`, `EdgeDb.get_save_of_ne` — what a save changes.
* `EdgeDb.drawBillNo_spec` — the number drawn is one past the last of its series.
-/

namespace StelloKitchens

open Checked

/-! ### Tables -/

inductive SyncState
  | localOnly
  | queued
  | synced
  | conflict
  | rejected
  deriving DecidableEq

structure OrderRow where
  state : Order
  dirty : Bool
  serverId : Option String
  billNumber : Option String
  syncState : SyncState
  deriving DecidableEq

namespace OrderRow

def clientId (r : OrderRow) : Uuid := r.state.clientId

def status (r : OrderRow) : OrderStatus := r.state.status

/-- The table a running order holds; a closed order holds none. -/
def tableId (r : OrderRow) : Option String :=
  if r.state.status = .opened then truthy r.state.tableId else none

/-- The row of an order saved for the first time. -/
def fresh (order : Order) : OrderRow := ⟨order, false, none, none, .localOnly⟩

/-- The row with another state and the same sync marks. -/
def withState (r : OrderRow) (order : Order) : OrderRow := { r with state := order }

theorem clientId_withState {order : Order} (r : OrderRow) :
    r.clientId = (fresh order).clientId → (r.withState order).clientId = (fresh order).clientId :=
  fun _ => rfl

/-- The row of an order that has been put in the outbox. -/
def queued (r : OrderRow) : OrderRow := { r with syncState := .queued, dirty := true }

theorem clientId_queued (r : OrderRow) : r.queued.clientId = r.clientId := rfl

end OrderRow

inductive OutboxStatus
  | pending
  | done
  | conflict
  | rejected
  deriving DecidableEq

/-- The idempotency key of an outbox entry, which also says its kind: an order is sent under its
client id, a kitchen update under a key of its own. -/
inductive OutboxKey
  | order (clientId : Uuid)
  | kotStatus (clientId update : Uuid)
  deriving DecidableEq

def OutboxKey.clientId : OutboxKey → Uuid
  | .order c => c
  | .kotStatus c _ => c

/-- The key as it is sent. -/
def OutboxKey.text : OutboxKey → String
  | .order c => c.text
  | .kotStatus c u => c.text ++ ":kot:" ++ u.text

structure OutboxEntry where
  id : ℕ
  key : OutboxKey
  /-- The lines of a kitchen update; an order is built from its row when it is sent. -/
  payload : List KotStatusLine
  status : OutboxStatus
  attempts : ℕ
  nextAttemptAt : Time
  lastError : Option String
  createdAt : Time
  doneAt : Option Time
  deriving DecidableEq

structure DeviceConflict where
  id : ℕ
  clientId : Uuid
  billNumber : Option String
  kind : EdgeConflictKind
  message : String
  createdAt : Time
  acknowledgedAt : Option Time
  acknowledgedBy : Option String
  deriving DecidableEq

structure BillSeriesRow where
  key : String × String
  lastSeq : ℕ
  deriving DecidableEq

def BillSeriesRow.advance (seq : ℕ) (r : BillSeriesRow) : BillSeriesRow := { r with lastSeq := seq }

/-- The last number drawn in a series and fiscal year. -/
def lastSeq (t : KeyedTable BillSeriesRow.key) (key : String × String) : ℕ :=
  (t.find? key).elim 0 (·.lastSeq)

/-- The series with its last number moved on. -/
def advanceSeries (t : KeyedTable BillSeriesRow.key) (key : String × String) (seq : ℕ) :
    KeyedTable BillSeriesRow.key :=
  t.upsert ⟨key, seq⟩ (.advance seq) fun _ h => h

theorem lastSeq_advanceSeries_self {t : KeyedTable BillSeriesRow.key} {key : String × String}
    {seq : ℕ} : lastSeq (advanceSeries t key seq) key = seq := by
  have h : (advanceSeries t key seq).find? key =
      some ((t.find? key).elim ⟨key, seq⟩ (BillSeriesRow.advance seq)) :=
    KeyedTable.find?_upsert_self _
  rw [lastSeq, h]
  cases t.find? key <;> rfl

theorem lastSeq_advanceSeries_of_ne {t : KeyedTable BillSeriesRow.key}
    {key key' : String × String} {seq : ℕ} (hne : key' ≠ key) :
    lastSeq (advanceSeries t key seq) key' = lastSeq t key' := by
  have h : (advanceSeries t key seq).find? key' = t.find? key' :=
    KeyedTable.find?_upsert_of_ne _ hne
  rw [lastSeq, h, lastSeq]

inductive KotStatus
  | active (status : PrepStatus)
  | cancelled
  deriving DecidableEq

/-- The id of a kitchen ticket: the order, the round and the station. -/
structure KotId where
  clientId : Uuid
  kotNo : ℕ
  station : String
  deriving DecidableEq

structure KotItem where
  lineIndex : ℕ
  name : String
  variationName : Option String
  addonNames : List String
  quantity : Binary64
  note : Option String
  deriving DecidableEq

structure KotRow where
  id : KotId
  stationId : Option String
  stationName : String
  status : KotStatus
  items : List KotItem
  label : String
  orderType : OrderType
  createdAt : Time
  updatedAt : Time
  readyAt : Option Time
  deriving DecidableEq

/-- The settings a device keeps outside its tables. -/
structure EdgeMeta where
  deviceId : String
  terminalId : Option String
  outletId : Option String
  deviceToken : Option String
  edgeDeviceId : Option String
  seriesCode : Option SeriesCode
  clockSkewMs : ℤ
  billSeq : ℕ
  feedCursor : ℕ
  deriving DecidableEq

structure EdgeDb where
  settings : EdgeMeta
  catalog : Catalog
  orders : KeyedTable OrderRow.clientId
  outbox : KeyedTable OutboxEntry.key
  /-- The last id the outbox gave out. -/
  outboxSeq : ℕ
  conflicts : List DeviceConflict
  conflictSeq : ℕ
  billSeries : KeyedTable BillSeriesRow.key
  kots : KeyedTable KotRow.id
  deriving DecidableEq

namespace EdgeDb

/-! ### Orders -/

/-- The device's row of an order. -/
def get (db : EdgeDb) (clientId : Uuid) : Option OrderRow := db.orders.find? clientId

/-- The running order with this id. -/
def getOpen (db : EdgeDb) (clientId : Uuid) : Except EdgeError Order := do
  let row ← orThrow (db.get clientId) ⟨"Order not found", 404⟩
  ensure (row.state.status = .opened) ⟨"Order is not open", 409⟩
  return row.state

/-- Write an order: a new row is local, an existing one keeps its sync marks. -/
def save (db : EdgeDb) (order : Order) : EdgeDb :=
  { db with
    orders := db.orders.upsert (.fresh order) (·.withState order) OrderRow.clientId_withState }

theorem getOpen_eq_ok {db : EdgeDb} {c : Uuid} {order : Order} :
    db.getOpen c = .ok order ↔
      ∃ row, db.get c = some row ∧ row.state = order ∧ order.status = .opened := by
  simp only [getOpen, bind_eq_ok, orThrow_eq_ok, ensure_eq_ok, pure_eq_ok]
  constructor
  · rintro ⟨row, hrow, -, hopen, rfl⟩
    exact ⟨row, hrow, rfl, hopen⟩
  · rintro ⟨row, hrow, rfl, hopen⟩
    exact ⟨row, hrow, (), hopen, rfl⟩

/-- A saved order keeps the sync marks its row had; a new row has none. -/
theorem get_save_self {db : EdgeDb} {order : Order} :
    (db.save order).get order.clientId =
      some ((db.get order.clientId).elim (.fresh order) (·.withState order)) :=
  KeyedTable.find?_upsert_self OrderRow.clientId_withState

/-! ### The outbox -/

/-- Queue an entry unless its key is already there. -/
def insertOutbox (db : EdgeDb) (now : Time) (key : OutboxKey) (payload : List KotStatusLine) :
    EdgeDb :=
  { db with
    outbox := db.outbox.upsert
      ⟨db.outboxSeq + 1, key, payload, .pending, 0, now, none, now, none⟩ id fun _ h => h
    outboxSeq := if (db.outbox.find? key).isSome then db.outboxSeq else db.outboxSeq + 1 }

/-- Queue an entry; an order is marked as queued. -/
def enqueue (db : EdgeDb) (now : Time) (key : OutboxKey) (payload : List KotStatusLine) :
    EdgeDb :=
  let db := db.insertOutbox now key payload
  match key with
  | .order c =>
    { db with
      orders := db.orders.modify (fun r => r.clientId = c) OrderRow.queued
        OrderRow.clientId_queued }
  | .kotStatus _ _ => db

/-- A key that is new is found with its pending entry. -/
theorem find?_enqueue_self {db : EdgeDb} {now : Time} {key : OutboxKey}
    {payload : List KotStatusLine} (h : db.outbox.find? key = none) :
    (db.enqueue now key payload).outbox.find? key =
      some ⟨db.outboxSeq + 1, key, payload, .pending, 0, now, none, now, none⟩ := by
  have hself := @KeyedTable.find?_upsert_self _ _ _ _ db.outbox
    ⟨db.outboxSeq + 1, key, payload, .pending, 0, now, none, now, none⟩ id fun _ h => h
  rw [h] at hself
  cases key <;> exact hself

/-- An order that is queued is marked so. -/
theorem get_enqueue_order {db : EdgeDb} {now : Time} {c : Uuid} {payload : List KotStatusLine} :
    (db.enqueue now (.order c) payload).get c = (db.get c).map OrderRow.queued := by
  have h := KeyedTable.find?_modify (t := db.orders) (p := fun r => r.clientId = c)
    OrderRow.clientId_queued c
  simp only [decide_eq_true_eq] at h
  refine Eq.trans h ?_
  change (db.get c).map _ = _
  cases hrow : db.get c with
  | none => rfl
  | some r =>
    rw [Option.map_some, if_pos (KeyedTable.find?_eq_some.mp hrow).2]
    rfl

theorem billSeries_enqueue {db : EdgeDb} {now : Time} {key : OutboxKey}
    {payload : List KotStatusLine} :
    (db.enqueue now key payload).billSeries = db.billSeries := by
  cases key <;> rfl

/-! ### Firing a round to the kitchen -/

/-- Put a line on the ticket of its station, opening the ticket if it is the first. -/
def addToTicket (ticket : String → KotRow) (tickets : List KotRow) (l : OrderLine)
    (item : KotItem) : List KotRow :=
  let k := (truthy l.stationId).getD "none"
  if tickets.any (·.id.station = k) then
    tickets.map fun t => if t.id.station = k then { t with items := t.items ++ [item] } else t
  else tickets ++ [{ ticket k with stationId := l.stationId, stationName := l.stationName,
                                   items := [item] }]

/-- The heading of an order's tickets. -/
def ticketLabel (order : Order) : String :=
  let who := (truthy order.customerName).elim "" (" · " ++ ·)
  match order.orderType with
  | .dineIn => "Table " ++ order.tableName.getD "null"
  | .delivery => "Delivery" ++ who
  | .takeaway => "Takeaway" ++ who

/-- The tickets of a round, one for each station in the order its lines come. -/
def roundTickets (order : Order) (kotNo base : ℕ) (now : Time) (lines : List OrderLine) :
    List KotRow :=
  let ticket (k : String) : KotRow :=
    ⟨⟨order.clientId, kotNo, k⟩, none, "", .active .pending, [], ticketLabel order,
      order.orderType, now, now, none⟩
  (lines.zipIdx base).foldl (fun tickets (l, i) => addToTicket ticket tickets l
    ⟨i, l.itemName, l.variationName, l.addonNames, l.quantity, l.note⟩) []

/-- Write a ticket; its id is the primary key. -/
def insertKot (kots : KeyedTable KotRow.id) (t : KotRow) :
    Except EdgeError (KeyedTable KotRow.id) := do
  ensure (kots.find? t.id = none) (.bad "UNIQUE constraint failed: kots.id")
  return kots.put t

/-- An order with a round appended: the totals start again without any discount. -/
def withRound (order : Order) (lines : List OrderLine) : Order :=
  let lines := order.lines ++ lines.map fun l => { l with kotNo := order.kotCount + 1 }
  { order with
    kotCount := order.kotCount + 1
    lines := lines
    totals := orderTotals lines 0
    manualDiscount := 0
    couponDiscount := 0 }

/-- Append lines to an order as a new round and write one ticket for each station. -/
def fire (db : EdgeDb) (now : Time) (order : Order) (lines : List OrderLine) :
    Except EdgeError (Order × EdgeDb) := do
  let tickets := roundTickets order (order.kotCount + 1) order.lines.length now lines
  let kots ← tickets.foldlM insertKot db.kots
  return (withRound order lines, { db with kots := kots })

theorem fire_spec {db db' : EdgeDb} {now : Time} {order order' : Order} {lines : List OrderLine}
    (h : db.fire now order lines = .ok (order', db')) :
    order' = withRound order lines ∧ ∃ kots, db' = { db with kots := kots } := by
  simp only [fire, bind_eq_ok, pure_eq_ok] at h
  obtain ⟨kots, -, h⟩ := h
  cases h
  exact ⟨rfl, kots, rfl⟩

/-! ### Invoice numbers -/

/-- The device clock corrected by the last measured skew. -/
def trueNow (db : EdgeDb) (now : Time) : Time := now + db.settings.clockSkewMs

/-- Draw the next invoice number of the device's series; without a series there is none. -/
def drawBillNo (db : EdgeDb) (now : Time) : Except EdgeError (Option EdgeBillNo × EdgeDb) :=
  match db.settings.seriesCode with
  | none => .ok (none, db)
  | some series => do
    let fy := fiscalYearCode (db.trueNow now)
    let seq := lastSeq db.billSeries (series.code, fy) + 1
    let number ← (formatEdgeBillNumber series.code fy seq).mapError EdgeError.bad
    return (some ⟨series.code, fy, seq, number⟩,
      { db with billSeries := advanceSeries db.billSeries (series.code, fy) seq })

/-- The number drawn is one past the last of its series and year. -/
theorem drawBillNo_spec {db db' : EdgeDb} {now : Time} {billNo : Option EdgeBillNo}
    (h : db.drawBillNo now = .ok (billNo, db')) :
    (billNo = none ∧ db' = db) ∨ ∃ series fy number,
      db.settings.seriesCode = some series ∧ fy = fiscalYearCode (db.trueNow now) ∧
      formatEdgeBillNumber series.code fy (lastSeq db.billSeries (series.code, fy) + 1) =
        .ok number ∧
      billNo = some ⟨series.code, fy, lastSeq db.billSeries (series.code, fy) + 1, number⟩ ∧
      db' = { db with billSeries := advanceSeries db.billSeries (series.code, fy)
                        (lastSeq db.billSeries (series.code, fy) + 1) } := by
  unfold drawBillNo at h
  cases hs : db.settings.seriesCode with
  | none =>
    rw [hs] at h
    cases h
    exact .inl ⟨rfl, rfl⟩
  | some series =>
    rw [hs] at h
    simp only [bind_eq_ok, pure_eq_ok] at h
    obtain ⟨number, hnumber, h⟩ := h
    cases h
    refine .inr ⟨series, _, number, rfl, rfl, ?_, rfl, rfl⟩
    cases hf : formatEdgeBillNumber series.code (fiscalYearCode (db.trueNow now))
        (lastSeq db.billSeries (series.code, fiscalYearCode (db.trueNow now)) + 1) with
    | error e =>
      rw [hf] at hnumber
      cases hnumber
    | ok n =>
      rw [hf] at hnumber
      cases hnumber
      rfl

/-- The reference printed before the device has a series. -/
def nextLegacyRef (db : EdgeDb) : ℕ × EdgeDb :=
  let n := db.settings.billSeq + 1
  (n, { db with settings := { db.settings with billSeq := n } })

/-- The prefix of a legacy reference: the second part of the device id. -/
def legacyPrefix (db : EdgeDb) : String :=
  sliceUtf16 8 ((truthy ((db.settings.deviceId.splitOn "-")[1]?)).getD "D")

end EdgeDb

end StelloKitchens
