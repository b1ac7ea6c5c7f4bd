import StelloKitchens.Edge.Store

/-!
# The life of an order on the device

Opening an order, adding a round, settling and cancelling it, bumping its kitchen tickets, and
purging what the cloud has accepted. Each operation is one database transaction: a refusal leaves
the database as it was.

## Main definitions

* `EdgeDb.createOrder`, `EdgeDb.addItems`, `EdgeDb.settleOrder`, `EdgeDb.cancelOrder`.
* `EdgeDb.advanceTicket` — a kitchen screen bumps a ticket.
* `EdgeDb.purge` — retention.

## Main results

* `EdgeDb.createOrder_spec`, `EdgeDb.addItems_spec`, `EdgeDb.settleOrder_spec`,
  `EdgeDb.cancelOrder_spec`, `EdgeDb.advanceTicket_spec` — all that an operation does when it
  is not refused.
-/

namespace StelloKitchens

open Checked

namespace EdgeDb

/-! ### Opening an order -/

structure CreateInput where
  orderType : Option String
  tableId : Option String
  customerName : Option String
  customerPhone : Option String
  deliveryAddress : Option String
  items : List LineInput
  combos : List ComboInput
  staffId : Option String
  allowCloudOccupied : Bool

/-- The table of a dine-in order: it is in the catalog, and free in the cloud unless overridden. -/
def claimTable (db : EdgeDb) (input : CreateInput) : Except EdgeError EdgeTableData := do
  let tableId ← orThrow (truthy input.tableId) (.bad "Dine-in orders need a table")
  let table ← orThrow (db.catalog.table? tableId) (.bad "Unknown table")
  ensure (input.allowCloudOccupied ∨
      table.cloudOccupiedBy.all (·.deviceId = db.settings.terminalId))
    ⟨table.name ++ " has a running order on another terminal", 409⟩
  return table

/-- The table of a new order, if its type takes one. -/
def tableFor (db : EdgeDb) (orderType : OrderType) (input : CreateInput) :
    Except EdgeError (Option EdgeTableData) :=
  match orderType with
  | .dineIn => some <$> db.claimTable input
  | _ => .ok none

/-- An order as it is opened, before its first round. -/
def newOrder (now : Time) (clientId : Uuid) (orderType : OrderType)
    (table : Option EdgeTableData) (input : CreateInput) : Order where
  clientId := clientId
  orderType := orderType
  tableId := if table.isSome then input.tableId else none
  tableName := table.map (·.name)
  customerName := truthy input.customerName
  customerPhone := truthy input.customerPhone
  deliveryAddress := if orderType = .delivery then input.deliveryAddress else none
  lines := []
  payments := []
  manualDiscount := 0
  couponCode := none
  couponDiscount := 0
  totals := default
  status := .opened
  billNo := none
  offlineRef := none
  kotCount := 0
  createdAt := now
  closedAt := none
  createdByStaffId := input.staffId
  closedByStaffId := none
  lastAddedByStaffId := none
  cancelReason := none
  clientUpdatedAt := now

/-- A running order holds this table. -/
def tableBusy (db : EdgeDb) (tableId : String) : Bool :=
  db.orders.rows.any fun r => r.tableId = some tableId

/-- Open an order and fire its first round. -/
def createOrder (db : EdgeDb) (now : Time) (clientId : Uuid) (input : CreateInput) :
    Except EdgeError (Order × EdgeDb) := do
  let orderType ← orThrow (OrderType.parse (input.orderType.getD "TAKEAWAY"))
    (.bad "Invalid order type")
  let lines ← resolveItems db.catalog input.items input.combos
  ensure (lines ≠ []) (.bad "An order needs at least one item or combo")
  let table ← db.tableFor orderType input
  ensure (orderType = .delivery →
      (truthy input.customerPhone).isSome ∧ (truthy input.deliveryAddress).isSome)
    (.bad "Delivery orders need a phone number and address")
  let order := newOrder now clientId orderType table input
  ensure (∀ id ∈ truthy order.tableId, db.tableBusy id = false)
    ⟨order.tableName.getD "null" ++ " already has a running order", 409⟩
  let (order, db) ← db.fire now order lines
  return (order, db.save order)

/-- Opening an order saves its first round on a table that is free. -/
theorem createOrder_spec {db db' : EdgeDb} {now : Time} {clientId : Uuid} {input : CreateInput}
    {order : Order} (h : db.createOrder now clientId input = .ok (order, db')) :
    ∃ orderType table lines kots, lines ≠ [] ∧ (∀ l ∈ lines, l.WellFormed) ∧
      order = withRound (newOrder now clientId orderType table input) lines ∧
      (∀ id ∈ truthy order.tableId, db.tableBusy id = false) ∧
      db' = { db with kots := kots }.save order := by
  simp only [createOrder, bind_eq_ok, orThrow_eq_ok, ensure_eq_ok, pure_eq_ok] at h
  obtain ⟨orderType, -, lines, hlines, -, hne, table, -, -, -, -, hfree, ⟨o, db₁⟩, hfire, h⟩ := h
  obtain ⟨rfl, kots, rfl⟩ := fire_spec hfire
  cases h
  exact ⟨orderType, table, lines, kots, hne, resolveItems_wellFormed hlines, rfl, hfree, rfl⟩

/-! ### Adding a round -/

structure AddInput where
  items : List LineInput
  combos : List ComboInput
  staffId : Option String

/-- Add a round to a running order. -/
def addItems (db : EdgeDb) (now : Time) (clientId : Uuid) (input : AddInput) :
    Except EdgeError (Order × EdgeDb) := do
  let lines ← resolveItems db.catalog input.items input.combos
  ensure (lines ≠ []) (.bad "Add at least one item or combo")
  let order ← db.getOpen clientId
  let (order, db) ← db.fire now order lines
  let order := { order with lastAddedByStaffId := input.staffId, clientUpdatedAt := now }
  return (order, db.save order)

/-- The order with a round added by a member of staff. -/
def withAddedRound (order : Order) (now : Time) (staffId : Option String)
    (lines : List OrderLine) : Order :=
  { withRound order lines with lastAddedByStaffId := staffId, clientUpdatedAt := now }

/-- Adding a round saves it on the running order. -/
theorem addItems_spec {db db' : EdgeDb} {now : Time} {clientId : Uuid} {input : AddInput}
    {order : Order} (h : db.addItems now clientId input = .ok (order, db')) :
    ∃ row lines kots, db.get clientId = some row ∧ row.state.status = .opened ∧ lines ≠ [] ∧
      (∀ l ∈ lines, l.WellFormed) ∧
      order = withAddedRound row.state now input.staffId lines ∧
      db' = { db with kots := kots }.save order := by
  simp only [addItems, bind_eq_ok, ensure_eq_ok, pure_eq_ok, getOpen_eq_ok] at h
  obtain ⟨lines, hlines, -, hne, o, ⟨row, hrow, rfl, hopen⟩, ⟨o, db₁⟩, hfire, h⟩ := h
  obtain ⟨rfl, kots, rfl⟩ := fire_spec hfire
  cases h
  exact ⟨row, lines, kots, hrow, hopen, hne, resolveItems_wellFormed hlines, rfl, rfl⟩

/-! ### Coupons -/

structure CouponPreview where
  valid : Bool
  discount : Binary64
  message : String
  code : Option String
  limited : Bool

/-- Settled orders with this coupon that the cloud has not counted yet. -/
def unsyncedRedemptions (db : EdgeDb) (code : String) : ℕ :=
  (db.orders.rows.filter fun r =>
    r.status = .settled ∧ (r.syncState = .localOnly ∨ r.syncState = .queued) ∧
      r.state.couponCode = some code).length

/-- A coupon code as an operator types it. -/
def wantedCode (code : String) : String := (trim code).toUpper

/-- Check a coupon against the cached rule and this device's unsynced redemptions. -/
def previewCoupon (db : EdgeDb) (now : Time) (code : String) (subtotal : Binary64) :
    CouponPreview :=
  let c := db.catalog.coupons.find? (·.code = wantedCode code)
  let rule := c.map fun c =>
    if c.rule.usageLimit.isSome then
      { c.rule with usedCount := c.rule.usedCount + db.unsyncedRedemptions c.code }
    else c.rule
  let res := evaluateCoupon rule subtotal (db.trueNow now)
  { valid := res.valid
    discount := res.discount
    message := res.message
    code := c.map (·.code)
    limited := c.any (·.rule.usageLimit.isSome) }

/-! ### Settling -/

structure PaymentInput where
  mode : String
  amount : Binary64
  reference : Option String

structure SettleInput where
  payments : List PaymentInput
  discountAmount : Option Binary64
  couponCode : Option String
  staffId : Option String

/-- An amount is in rupees and paise, up to a millionth of a paisa. -/
def wholePaise (amount : Binary64) : Bool :=
  let gap := amount * 100 - toPaise amount
  max gap (0 - gap) ≤ Binary64.ofRat (1 / 10 ^ 6)

/-- The coupon of a settlement: its code and discount. -/
def redeemCoupon (db : EdgeDb) (now : Time) (couponCode : Option String) (subtotal : Binary64) :
    Except EdgeError (Option String × Binary64) :=
  match truthy couponCode with
  | none => .ok (none, 0)
  | some code => do
    let c := db.previewCoupon now code subtotal
    ensure c.valid (.bad c.message)
    return (c.code, c.discount)

/-- One payment: a known mode and a positive amount in rupees and paise. -/
def checkPayment (p : PaymentInput) : Except EdgeError EdgePayment := do
  let mode ← orThrow (PaymentMode.parse p.mode) (.bad ("Unsupported payment mode " ++ p.mode))
  ensure (0 < p.amount ∧ wholePaise p.amount)
    (.bad "Payment amounts must be positive rupees and paise")
  return ⟨mode, p.amount, (truthy p.reference).map (sliceUtf16 60)⟩

/-- The sum of payments in paise. -/
def paidPaise (payments : List EdgePayment) : Binary64 :=
  payments.foldl (fun s p => s + toPaise p.amount) 0

/-- The discount of an order: the manual one and the coupon's, added in paise. -/
def discountOf (manual coupon : Binary64) : Binary64 := fromPaise (toPaise manual + toPaise coupon)

@[simp] theorem discountOf_zero : discountOf 0 0 = 0 := by
  have h : (0 + 0 : Binary64) = 0 := by
    apply Binary64.ext
    rw [Binary64.val_add, Binary64.val_zero, add_zero, Binary64.round_zero]
  rw [discountOf, toPaise_zero, h, fromPaise_zero]

/-- What a settlement collects before it touches the database. -/
structure Settlement where
  manualDiscount : Binary64
  couponCode : Option String
  couponDiscount : Binary64
  totals : OrderTotals
  payments : List EdgePayment

/-- The figures of a settlement, all checks passed. -/
def checkSettlement (db : EdgeDb) (now : Time) (order : Order) (input : SettleInput) :
    Except EdgeError Settlement := do
  let subtotal := (orderTotals order.lines 0).subtotal
  let manual := input.discountAmount.getD 0
  ensure (0 ≤ manual ∧ wholePaise manual) (.bad "Invalid discount")
  let (code, couponDiscount) ← db.redeemCoupon now input.couponCode subtotal
  let discount := discountOf manual couponDiscount
  ensure (discount ≤ subtotal) (.bad "Discount exceeds the bill")
  let t := orderTotals order.lines discount
  ensure (input.payments ≠ []) (.bad "Add at least one payment")
  let payments ← input.payments.mapM checkPayment
  let paid := paidPaise payments
  ensure (paid = toPaise t.total)
    (.bad ("Payments (" ++ toFixed2 (fromPaise paid) ++ ") must equal total (" ++
      toFixed2 t.total ++ ")"))
  return ⟨manual, code, couponDiscount, t, payments⟩

/-- What the checks of a settlement leave. -/
structure Settlement.Checked (order : Order) (s : Settlement) : Prop where
  manual_nonneg : 0 ≤ s.manualDiscount
  manual_wholePaise : wholePaise s.manualDiscount
  coupon_cents : IsMultipleOfCent s.couponDiscount
  discount_le : discountOf s.manualDiscount s.couponDiscount ≤ (orderTotals order.lines 0).subtotal
  totals_eq : s.totals = orderTotals order.lines (discountOf s.manualDiscount s.couponDiscount)
  payments_ne_nil : s.payments ≠ []
  payment_pos : ∀ p ∈ s.payments, 0 < p.amount ∧ wholePaise p.amount
  payment_reference : ∀ p ∈ s.payments, MaxLength 60 p.reference
  paid_eq : paidPaise s.payments = toPaise s.totals.total

theorem checkPayment_spec {p : PaymentInput} {q : EdgePayment} (h : checkPayment p = .ok q) :
    (0 < q.amount ∧ wholePaise q.amount) ∧ MaxLength 60 q.reference := by
  simp only [checkPayment, bind_eq_ok, orThrow_eq_ok, ensure_eq_ok, pure_eq_ok] at h
  obtain ⟨mode, -, -, hamount, rfl⟩ := h
  refine ⟨hamount, fun t ht => ?_⟩
  obtain ⟨r, -, rfl⟩ := Option.map_eq_some_iff.mp ht
  exact utf16Length_sliceUtf16_le 60 r

/-- A coupon gives a discount in rupees and paise. -/
theorem redeemCoupon_spec {db : EdgeDb} {now : Time} {couponCode code : Option String}
    {subtotal discount : Binary64}
    (h : db.redeemCoupon now couponCode subtotal = .ok (code, discount)) :
    IsMultipleOfCent discount := by
  unfold redeemCoupon at h
  split at h
  · cases h
    exact isMultipleOfCent_zero
  · simp only [bind_eq_ok, ensure_eq_ok, pure_eq_ok] at h
    obtain ⟨-, hvalid, h⟩ := h
    cases h
    obtain ⟨c, -, -, hdiscount⟩ := evaluateCoupon_valid hvalid
    change IsMultipleOfCent (evaluateCoupon _ _ _).discount
    rw [hdiscount]
    exact isMultipleOfCent_fromPaise _

theorem checkSettlement_spec {db : EdgeDb} {now : Time} {order : Order} {input : SettleInput}
    {s : Settlement} (h : db.checkSettlement now order input = .ok s) : s.Checked order := by
  simp only [checkSettlement, bind_eq_ok, ensure_eq_ok, pure_eq_ok] at h
  obtain ⟨-, ⟨hmanual, hwhole⟩, ⟨code, coupon⟩, hcoupon, -, hdiscount, -, hne, payments, hpay, -,
    hpaid, rfl⟩ := h
  have hpayment : ∀ p ∈ payments, (0 < p.amount ∧ wholePaise p.amount) ∧
      MaxLength 60 p.reference := by
    intro p hp
    obtain ⟨q, -, hq⟩ := forall_mem_of_mapM hpay p hp
    exact checkPayment_spec hq
  refine ⟨hmanual, hwhole, redeemCoupon_spec hcoupon, hdiscount, rfl, ?_, fun p hp => (hpayment p hp).1,
    fun p hp => (hpayment p hp).2, hpaid⟩
  rintro rfl
  exact hne (List.length_eq_zero_iff.mp ((length_of_mapM hpay).symm ▸ rfl))

/-- The order with the figures of its settlement and its invoice number. -/
def settled (order : Order) (now : Time) (s : Settlement) (staffId : Option String)
    (billNo : Option EdgeBillNo) (offlineRef : String) : Order :=
  { order with
    totals := s.totals
    payments := s.payments
    manualDiscount := s.manualDiscount
    couponCode := s.couponCode
    couponDiscount := s.couponDiscount
    status := .settled
    billNo := billNo
    offlineRef := some offlineRef
    closedAt := some now
    closedByStaffId := staffId
    clientUpdatedAt := now }

/-- The reference printed on the receipt: the invoice number, or a legacy reference. -/
def printedRef (db : EdgeDb) (billNo : Option EdgeBillNo) : String × EdgeDb :=
  match billNo with
  | some b => (b.number, db)
  | none =>
    let (n, db') := db.nextLegacyRef
    (db.legacyPrefix ++ "-" ++ toString n, db')

/-- Settle a running order with any mix of payments. -/
def settleOrder (db : EdgeDb) (now : Time) (clientId : Uuid) (input : SettleInput) :
    Except EdgeError (Order × EdgeDb) := do
  let order ← db.getOpen clientId
  let s ← db.checkSettlement now order input
  let (billNo, db) ← db.drawBillNo now
  let (offlineRef, db) := db.printedRef billNo
  let order := settled order now s input.staffId billNo offlineRef
  return (order, (db.save order).enqueue now (.order order.clientId) [])

/-- Settling saves the settled order under the number drawn and queues it. -/
theorem settleOrder_spec {db db' : EdgeDb} {now : Time} {clientId : Uuid} {input : SettleInput}
    {order : Order} (h : db.settleOrder now clientId input = .ok (order, db')) :
    ∃ row s billNo db₁, db.get clientId = some row ∧ row.state.status = .opened ∧
      s.Checked row.state ∧ db.drawBillNo now = .ok (billNo, db₁) ∧
      order = settled row.state now s input.staffId billNo (db₁.printedRef billNo).1 ∧
      db' = ((db₁.printedRef billNo).2.save order).enqueue now (.order order.clientId) [] := by
  simp only [settleOrder, bind_eq_ok, pure_eq_ok, getOpen_eq_ok] at h
  obtain ⟨o, ⟨row, hrow, rfl, hopen⟩, s, hs, ⟨billNo, db₁⟩, hdraw, h⟩ := h
  cases h
  exact ⟨row, s, billNo, db₁, hrow, hopen, checkSettlement_spec hs, hdraw, rfl, rfl⟩

/-! ### Cancelling -/

/-- The order as it is cancelled. -/
def cancelled (order : Order) (now : Time) (staffId reason : Option String) : Order :=
  { order with
    status := .cancelled
    closedAt := some now
    closedByStaffId := staffId
    cancelReason := reason
    clientUpdatedAt := now }

/-- Cancel the tickets of an order. -/
def cancelTickets (db : EdgeDb) (now : Time) (clientId : Uuid) : EdgeDb :=
  { db with
    kots := db.kots.modify (fun k => k.id.clientId = clientId)
      (fun k => { k with status := .cancelled, updatedAt := now }) fun _ => rfl }

/-- Cancel a running order; it is sent to the cloud like a settled one. -/
def cancelOrder (db : EdgeDb) (now : Time) (clientId : Uuid) (staffId reason : Option String) :
    Except EdgeError (Order × EdgeDb) := do
  let order ← db.getOpen clientId
  let order := cancelled order now staffId reason
  let db := (db.save order).cancelTickets now clientId
  return (order, db.enqueue now (.order order.clientId) [])

/-- Cancelling saves the cancelled order, cancels its tickets and queues it. -/
theorem cancelOrder_spec {db db' : EdgeDb} {now : Time} {clientId : Uuid}
    {staffId reason : Option String} {order : Order}
    (h : db.cancelOrder now clientId staffId reason = .ok (order, db')) :
    ∃ row, db.get clientId = some row ∧ row.state.status = .opened ∧
      order = cancelled row.state now staffId reason ∧
      db' = ((db.save order).cancelTickets now clientId).enqueue now
        (.order order.clientId) [] := by
  simp only [cancelOrder, bind_eq_ok, pure_eq_ok, getOpen_eq_ok] at h
  obtain ⟨o, ⟨row, hrow, rfl, hopen⟩, h⟩ := h
  cases h
  exact ⟨row, hrow, hopen, rfl, rfl⟩

/-! ### The kitchen -/

/-- Mark one line with a kitchen status. -/
def markLine (toStatus : PrepStatus) (now : Time) (lines : List OrderLine) (item : KotItem) :
    List OrderLine :=
  lines.modify item.lineIndex fun l =>
    { l with prepStatus := toStatus, preppedAt := if toStatus = .ready then some now else none }

/-- The order with the lines of a ticket marked. -/
def markTicket (order : Order) (toStatus : PrepStatus) (now : Time) (items : List KotItem) :
    Order :=
  { order with lines := items.foldl (markLine toStatus now) order.lines }

/-- The kitchen status of every line, numbered among its kind. -/
def statusLines (lines : List OrderLine) : List KotStatusLine :=
  let number (kind : LineKind) (i : ℕ) := (lines.take i).countP (·.kind = kind)
  lines.mapIdx fun i l =>
    ⟨number l.kind i, l.kind, l.prepStatus, l.preppedAt.map Stamp.iso⟩

/-- Put the new status on a ticket. -/
def setTicket (db : EdgeDb) (kotId : KotId) (toStatus : PrepStatus) (now : Time) : EdgeDb :=
  { db with
    kots := db.kots.modify (fun k => k.id = kotId)
      (fun k => { k with status := .active toStatus, updatedAt := now,
                         readyAt := if toStatus = .ready then some now else none })
      fun _ => rfl }

/-- The cloud has answered for the order: its outbox entry is done or in conflict. -/
def orderSent (db : EdgeDb) (clientId : Uuid) : Bool :=
  (db.outbox.find? (.order clientId)).any fun e => e.status = .done ∨ e.status = .conflict

/-- Save the marked order, and queue a kitchen update if the cloud has the order already. -/
def saveBump (db : EdgeDb) (now : Time) (update : Uuid) (order : Order) : EdgeDb :=
  let db := db.save order
  if db.orderSent order.clientId then
    db.enqueue now (.kotStatus order.clientId update) (statusLines order.lines)
  else db

/-- Bump a kitchen ticket and mirror its status onto the lines of the order. -/
def advanceTicket (db : EdgeDb) (now : Time) (update : Uuid) (kotId : KotId)
    (toStatus : String) : Except EdgeError EdgeDb := do
  let toStatus ← orThrow (PrepStatus.parse toStatus) (.bad "Invalid status")
  let kot ← orThrow (db.kots.find? kotId) ⟨"Ticket not found", 404⟩
  ensure (kot.status ≠ .cancelled) ⟨"Ticket not found", 404⟩
  let db := db.setTicket kotId toStatus now
  match db.get kotId.clientId with
  | none => return db
  | some row => return db.saveBump now update (markTicket row.state toStatus now kot.items)

/-- A bump writes tickets and, if the order is still on the device, saves its marked lines. -/
theorem advanceTicket_spec {db db' : EdgeDb} {now : Time} {update : Uuid} {kotId : KotId}
    {toStatus : String} (h : db.advanceTicket now update kotId toStatus = .ok db') :
    ∃ kots status items, (db.get kotId.clientId = none ∧ db' = { db with kots := kots }) ∨
      ∃ row, db.get kotId.clientId = some row ∧ db' = { db with kots := kots }.saveBump now update
        (markTicket row.state status now items) := by
  simp only [advanceTicket, bind_eq_ok, orThrow_eq_ok, ensure_eq_ok] at h
  obtain ⟨status, -, kot, -, -, -, h⟩ := h
  refine ⟨(db.setTicket kotId status now).kots, status, kot.items, ?_⟩
  have hget : (db.setTicket kotId status now).get kotId.clientId = db.get kotId.clientId := rfl
  rw [hget] at h
  cases hrow : db.get kotId.clientId with
  | none =>
    rw [hrow] at h
    cases h
    exact .inl ⟨rfl, rfl⟩
  | some row =>
    rw [hrow] at h
    cases h
    exact .inr ⟨row, rfl, rfl⟩

end EdgeDb

/-! ### Retention -/

def dayMs : ℤ := 86400000

/-- The cloud has durably accepted this order, and it was closed before the cutoff. -/
def OrderRow.purgeable (cutoff : Time) (r : OrderRow) : Bool :=
  r.status ≠ .opened ∧ (r.syncState = .synced ∨ r.syncState = .conflict) ∧
    r.state.closedAt.getD r.state.clientUpdatedAt < cutoff

/-- The cloud has answered this entry, and it did so before the cutoff. -/
def OutboxEntry.purgeable (cutoff : Time) (e : OutboxEntry) : Bool :=
  (e.status = .done ∨ e.status = .conflict) ∧ e.doneAt.any (· < cutoff)

namespace EdgeDb

/-- Drop what the cloud has accepted and is old enough. -/
def purge (db : EdgeDb) (now : Time) (orderDays outboxDays : ℤ) : EdgeDb :=
  let orderCutoff := now - orderDays * dayMs
  let orders := db.orders.delete (OrderRow.purgeable orderCutoff)
  let running (c : Uuid) := orders.rows.any fun r => r.status = .opened ∧ r.clientId = c
  { db with
    orders := orders
    outbox := db.outbox.delete (OutboxEntry.purgeable (now - outboxDays * dayMs))
    kots := db.kots.delete fun k => k.updatedAt < now - 2 * dayMs ∧ running k.id.clientId = false
    conflicts := db.conflicts.filter fun c => !c.acknowledgedAt.any (· < orderCutoff) }

end EdgeDb

end StelloKitchens
