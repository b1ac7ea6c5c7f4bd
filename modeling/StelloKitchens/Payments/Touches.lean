import StelloKitchens.Payments.Requests

/-!
# What the requests touch

Every request writes to a few of the payment tables only. What is proved of some tables needs to
look at the requests that touch them, and at no others.

## Main definitions

* `Table`, `Touches` — the tables, and writes that change some of them only.

## Main results

* `PaymentRequest.touches` — the tables that each request touches.
-/

namespace StelloKitchens.Payments

open Tx Method

/-- The payment tables; a ledger goes with what it is the ledger of. -/
inductive Table
  | orders
  | refunds
  | collections
  | events
  | sessions
  | movements
  | expenses
  | cards
  deriving DecidableEq

/-- A table is the same in two databases. -/
def Table.Same : Table → PaymentsDb → PaymentsDb → Prop
  | orders, s, t => t.orders = s.orders ∧ t.payments = s.payments
  | refunds, s, t => t.refunds = s.refunds
  | collections, s, t => t.gatewayPayments = s.gatewayPayments
  | events, s, t => t.gatewayEvents = s.gatewayEvents ∧ t.applied = s.applied
  | sessions, s, t => t.cashSessions = s.cashSessions
  | movements, s, t => t.cashMovements = s.cashMovements
  | expenses, s, t => t.expenses = s.expenses
  | cards, s, t => t.giftCards = s.giftCards ∧ t.giftCardTxns = s.giftCardTxns

theorem Table.Same.trans {t : Table} {s s' s'' : PaymentsDb} (h : t.Same s s') (h' : t.Same s' s'') :
    t.Same s s'' := by
  cases t <;> simp only [Table.Same] at * <;> simp only [h', h, and_self]

/-- Refunds and collections stay, under their numbers. -/
structure RowsStay (s s' : PaymentsDb) : Prop where
  refunds : ∀ r ∈ s.refunds, ∃ r' ∈ s'.refunds, r'.id = r.id
  collections : ∀ g ∈ s.gatewayPayments, ∃ g' ∈ s'.gatewayPayments, g'.id = g.id

theorem RowsStay.refl (s : PaymentsDb) : RowsStay s s :=
  ⟨fun r hr => ⟨r, hr, rfl⟩, fun g hg => ⟨g, hg, rfl⟩⟩

theorem RowsStay.trans {s s' s'' : PaymentsDb} (h : RowsStay s s') (h' : RowsStay s' s'') :
    RowsStay s s'' := by
  constructor
  · intro r hr
    obtain ⟨r', hr', hid⟩ := h.refunds r hr
    obtain ⟨r'', hr'', hid'⟩ := h'.refunds r' hr'
    exact ⟨r'', hr'', hid'.trans hid⟩
  · intro g hg
    obtain ⟨g', hg', hid⟩ := h.collections g hg
    obtain ⟨g'', hg'', hid'⟩ := h'.collections g' hg'
    exact ⟨g'', hg'', hid'.trans hid⟩

/-- A write changes no tables but these, and deletes no refund or collection. -/
structure Touches (ts : List Table) (f : PaymentsDb → PaymentsDb) : Prop where
  same : ∀ s, ∀ t ∉ ts, t.Same s (f s)
  rows : ∀ s, RowsStay s (f s)

variable {ts : List Table}

theorem touches_id : Touches ts id :=
  ⟨fun s t _ => by cases t <;> simp [Table.Same], RowsStay.refl⟩

theorem Touches.comp {f g : PaymentsDb → PaymentsDb} (hf : Touches ts f) (hg : Touches ts g) :
    Touches ts (g ∘ f) :=
  ⟨fun s t ht => (hf.same s t ht).trans (hg.same (f s) t ht),
    fun s => (hf.rows s).trans (hg.rows (f s))⟩

/-- A write to one table that keeps the rows of refunds and collections. -/
theorem touches_of_rows {table : Table} (h : table ∈ ts) {f : PaymentsDb → PaymentsDb}
    (hrows : ∀ s, RowsStay s (f s)) (hf : ∀ s, ∀ t, t ≠ table → t.Same s (f s)) : Touches ts f :=
  ⟨fun s t ht => hf s t fun heq => ht (heq ▸ h), hrows⟩

/-- A write to one other table touches that table. -/
theorem touches_of_ne {table : Table} (h : table ∈ ts)
    (hother : table ≠ .refunds ∧ table ≠ .collections) {f : PaymentsDb → PaymentsDb}
    (hf : ∀ s, ∀ t, t ≠ table → t.Same s (f s)) : Touches ts f := by
  refine touches_of_rows h (fun s => ?_) hf
  have hrefunds : (f s).refunds = s.refunds := hf s .refunds hother.1.symm
  have hcollections : (f s).gatewayPayments = s.gatewayPayments := hf s .collections hother.2.symm
  constructor
  · exact fun r hr => ⟨r, hrefunds ▸ hr, rfl⟩
  · exact fun g hg => ⟨g, hcollections ▸ hg, rfl⟩

theorem rowsStay_updateRefund (s : PaymentsDb) (id : ℕ) (f : Refund → Refund)
    (hf : ∀ r, (f r).id = r.id) : RowsStay s (s.updateRefund id f hf) := by
  refine ⟨fun r hr => ⟨_, (KeyedTable.mem_modify hf).mpr ⟨r, hr, rfl⟩, ?_⟩, (RowsStay.refl s).2⟩
  split
  · exact hf r
  · rfl

theorem rowsStay_updateCollection (s : PaymentsDb) (id : ℕ) (f : GatewayPayment → GatewayPayment)
    (hf : ∀ g, (f g).id = g.id) : RowsStay s (s.updateCollection id f hf) := by
  refine ⟨(RowsStay.refl s).1, fun g hg => ⟨_, (KeyedTable.mem_modify hf).mpr ⟨g, hg, rfl⟩, ?_⟩⟩
  split
  · exact hf g
  · rfl

/-- An inserted row leaves those under other numbers, and takes the place of one under its own. -/
theorem exists_mem_put {α : Type} {key : α → ℕ} (t : KeyedTable key) (new : α) {x : α}
    (hx : x ∈ t) : ∃ y ∈ t.put new, key y = key x := by
  by_cases hkey : key x = key new
  · exact ⟨new, KeyedTable.mem_put.mpr (.inl rfl), hkey.symm⟩
  · exact ⟨x, KeyedTable.mem_put.mpr (.inr ⟨hx, hkey⟩), rfl⟩

/-- The writes of a transaction are to these tables. -/
abbrev TxTouches {α : Type} (ts : List Table) (t : PaymentTx α) : Prop := t.Writes (Touches ts)

/-- The writes of a method are to these tables. -/
abbrev MethodTouches {α : Type} (ts : List Table) (x : PaymentMethod α) : Prop :=
  Writes (Touches ts) x

/-! ### Drawer, expenses and cards -/

theorem writes_createMovement (h : .movements ∈ ts) (sessionId : ℕ) (type : MovementType)
    (amount : Binary64) (category note : Option String) (orderId : Option ℕ) :
    TxTouches ts (createMovement sessionId type amount category note orderId) :=
  (writes_liftM _).bind fun _ => writes_draw.bind fun _ =>
    (writes_update (touches_of_ne h (by simp) fun s t ht => by cases t <;> simp_all [Table.Same,
      PaymentsDb.insertMovement])).bind fun _ => Tx.writes_pure _

theorem writes_recordCash (h : .movements ∈ ts) (outletId : String) (type : MovementType)
    (amount : Binary64) (category note : Option String) (orderId : Option ℕ) :
    TxTouches ts (recordCash outletId type amount category note orderId) :=
  (writes_query _).bind fun
    | none => Tx.writes_pure _
    | some _ => (writes_createMovement h _ _ _ _ _ _).bind fun _ => Tx.writes_pure _

theorem writes_lockOpenDrawer (tenantId outletId : String) :
    TxTouches ts (lockOpenDrawer tenantId outletId) :=
  (writes_query _).bind fun _ => (writes_acquireAll _).bind fun _ => writes_query _

theorem writes_putExpense (h : .expenses ∈ ts) (e : Expense) :
    TxTouches ts (update fun db => { db with expenses := db.expenses.put e }) :=
  writes_update (touches_of_ne h (by simp) fun s t ht => by cases t <;> simp_all [Table.Same])

theorem writes_putCard (h : .cards ∈ ts) (c : GiftCard) (e : GiftCardTxn) :
    TxTouches ts (update fun db => db.putCard c e) :=
  writes_update (touches_of_ne h (by simp) fun s t ht => by
    cases t <;> simp_all [Table.Same, PaymentsDb.putCard])

theorem writes_redeemGiftCardsTx (h : .cards ∈ ts) (user : AuthUser) (now : Time)
    (outletId : String) (orderId : ℕ) (payments : List CardPayment) :
    TxTouches ts (redeemGiftCardsTx user now outletId orderId payments) :=
  writes_foldlM (fun _ _ => (writes_query _).bind fun _ => (writes_require _ _).bind fun _ =>
    (writes_acquire _).bind fun _ => (writes_query _).bind fun _ => (writes_require _ _).bind fun _ =>
    (writes_check _ _).bind fun _ => (writes_check _ _).bind fun _ => (writes_check _ _).bind fun _ =>
    (writes_liftM _).bind fun _ => (writes_liftM _).bind fun _ => writes_putCard h _ _) _ _

theorem writes_createCard (h : .cards ∈ ts) (card : GiftCard) (type : CardTxnType)
    (orderId : Option ℕ) (paymentMode : Option IssueMode) (userId note : Option String) :
    TxTouches ts (createCard card type orderId paymentMode userId note) :=
  (writes_acquire _).bind fun _ => (writes_query _).bind fun _ => (writes_check _ _).bind fun _ =>
    writes_putCard h _ _

theorem writes_issueStoreCreditTx (h : .cards ∈ ts) (user : AuthUser) (outletId code : String)
    (amount : Binary64) (orderId : ℕ) (note : String) (phone name : Option String) :
    TxTouches ts (issueStoreCreditTx user outletId code amount orderId note phone name) :=
  writes_draw.bind fun _ => (writes_liftM _).bind fun _ => writes_createCard h _ _ _ _ _ _

/-! ### The requests -/

theorem touches_report (user : AuthUser) (outletId : String) (sessionId : ℕ) :
    MethodTouches ts (report user outletId sessionId) :=
  (writes_guardOr _ _).bind fun _ => (writes_look _).bind fun _ => (writes_getOr _ _).bind fun _ =>
    Method.writes_pure _

theorem touches_openDrawer (h : .sessions ∈ ts) (user : AuthUser) (now : Time) (outletId : String)
    (float : Binary64) : MethodTouches ts (openDrawer user now outletId float) :=
  (writes_guardOr _ _).bind fun _ => (writes_look _).bind fun _ => (writes_guardOr _ _).bind fun _ =>
    writes_atomically <| (writes_liftM _).bind fun _ => writes_draw.bind fun _ =>
      (writes_update (touches_of_ne h (by simp) fun s t ht => by cases t <;> simp_all [Table.Same])).bind
        fun _ => Tx.writes_pure _

theorem touches_closeDrawer (h : .sessions ∈ ts) (user : AuthUser) (now : Time) (outletId : String)
    (counted : Binary64) : MethodTouches ts (closeDrawer user now outletId counted) :=
  (writes_guardOr _ _).bind fun _ => (writes_look _).bind fun _ => (writes_getOr _ _).bind fun _ =>
    (writes_atomically <| (writes_acquire _).bind fun _ => (writes_liftM _).bind fun _ =>
      writes_update (touches_of_ne h (by simp) fun s t ht => by cases t <;> simp_all [Table.Same])).bind
        fun _ => touches_report _ _ _

theorem touches_addMovement (hm : .movements ∈ ts) (he : .expenses ∈ ts) (user : AuthUser)
    (outletId : String) (input : CashMovementInput) :
    MethodTouches ts (addMovement user outletId input) :=
  (writes_guardOr _ _).bind fun _ => (writes_look _).bind fun _ => (writes_getOr _ _).bind fun _ =>
    writes_atomically <| (writes_createMovement hm _ _ _ _ _ _).bind fun _ => writes_whenever <|
      (writes_liftM _).bind fun _ => writes_draw.bind fun _ => writes_putExpense he _

theorem touches_createExpense (hm : .movements ∈ ts) (he : .expenses ∈ ts) (user : AuthUser)
    (outletId : String) (input : ExpenseInput) :
    MethodTouches ts (createExpense user outletId input) := by
  refine (writes_guardOr _ _).bind fun _ => writes_atomically <| .bind ?_ fun _ =>
    (writes_liftM _).bind fun _ => writes_draw.bind fun _ => (writes_putExpense he _).bind fun _ =>
    Tx.writes_pure _
  split
  · exact (writes_lockOpenDrawer _ _).bind fun _ => (writes_require _ _).bind fun _ =>
      (writes_createMovement hm _ _ _ _ _ _).bind fun _ => Tx.writes_pure _
  · exact Tx.writes_pure _

theorem touches_voidExpense (hm : .movements ∈ ts) (he : .expenses ∈ ts) (user : AuthUser)
    (outletId : String) (id : ℕ) (reason : String) :
    MethodTouches ts (voidExpense user outletId id reason) :=
  (writes_guardOr _ _).bind fun _ => (writes_atomically <| (writes_acquire _).bind fun _ =>
    (writes_query _).bind fun _ => (writes_require _ _).bind fun _ => (writes_check _ _).bind fun _ =>
    (writes_query _).bind fun _ =>
    (writes_forM (fun _ => (writes_createMovement hm _ _ _ _ _ _).bind fun _ => Tx.writes_pure _)
      _).bind fun _ =>
    (writes_update (touches_of_ne he (by simp) fun s t ht => by cases t <;> simp_all [Table.Same])).bind
      fun _ => Tx.writes_pure _).bind fun _ => Method.writes_pure _

theorem touches_giveAdvance (hm : .movements ∈ ts) (user : AuthUser) (outletId : String)
    (input : SalaryAdvanceInput) : MethodTouches ts (giveAdvance user outletId input) :=
  (writes_guardOr _ _).bind fun _ => (writes_guardOr _ _).bind fun _ => writes_atomically <|
    writes_whenever <| (writes_lockOpenDrawer _ _).bind fun _ => (writes_require _ _).bind fun _ =>
      (writes_createMovement hm _ _ _ _ _ _).bind fun _ => Tx.writes_pure _

theorem writes_sellCard (hc : .cards ∈ ts) (hm : .movements ∈ ts) (user : AuthUser)
    (outletId code : String) (input : IssueGiftCardInput) :
    TxTouches ts (sellCard user outletId code input) := by
  refine writes_draw.bind fun _ => (writes_liftM _).bind fun _ =>
    (writes_createCard hc _ _ _ _ _ _).bind fun _ => ?_
  split
  · exact writes_recordCash hm _ _ _ _ _ _
  · exact Tx.writes_pure _

theorem touches_issueGiftCard (hc : .cards ∈ ts) (hm : .movements ∈ ts) (user : AuthUser)
    (now : Time) (outletId code : String) (input : IssueGiftCardInput) :
    MethodTouches ts (issueGiftCard user now outletId code input) :=
  (writes_guardOr _ _).bind fun _ => (writes_guardOr _ _).bind fun _ =>
    (writes_atomically (writes_sellCard hc hm _ _ _ _)).bind fun _ => Method.writes_pure _

theorem touches_voidGiftCard (hc : .cards ∈ ts) (user : AuthUser) (id : ℕ) (reason : String) :
    MethodTouches ts (voidGiftCard user id reason) :=
  writes_atomically <| (writes_acquire _).bind fun _ => (writes_query _).bind fun _ =>
    (writes_require _ _).bind fun _ => (writes_check _ _).bind fun _ => (writes_liftM _).bind fun _ =>
    writes_putCard hc _ _

theorem writes_createPayments (ho : .orders ∈ ts) (orderId : ℕ)
    (payments : List (Billing.SettleMode × Binary64)) :
    TxTouches ts (createPayments orderId payments) :=
  (writes_liftM _).bind fun _ =>
    writes_update (touches_of_ne ho (by simp) fun s t ht => by cases t <;> simp_all [Table.Same])

theorem writes_recordSaleCash (h : .movements ∈ ts) (outletId : String) (cash : Binary64)
    (billNumber : String) (orderId : ℕ) :
    TxTouches ts (recordSaleCash outletId cash billNumber orderId) := by
  unfold recordSaleCash
  split
  · exact writes_recordCash h _ _ _ _ _ _
  · exact Tx.writes_pure _

theorem writes_recordSettlement (ho : .orders ∈ ts) (hm : .movements ∈ ts) (order : Order)
    (input : SettlementInput) : TxTouches ts (recordSettlement order input) :=
  (writes_createPayments ho _ _).bind fun _ => (writes_recordSaleCash hm _ _ _ _).bind fun _ =>
    (writes_update (touches_of_ne ho (by simp) fun s t ht => by cases t <;> simp_all [Table.Same])).bind
      fun _ => Tx.writes_pure _

theorem touches_settleOrder (ho : .orders ∈ ts) (hc : .cards ∈ ts) (hm : .movements ∈ ts)
    (user : AuthUser) (now : Time) (orderId : ℕ) (input : SettlementInput) :
    MethodTouches ts (settleOrder user now orderId input) :=
  (writes_atomically <| (writes_acquire _).bind fun _ => (writes_query _).bind fun _ =>
    (writes_require _ _).bind fun _ => (writes_check _ _).bind fun _ => (writes_check _ _).bind fun _ =>
    (writes_check _ _).bind fun _ => (writes_redeemGiftCardsTx hc _ _ _ _ _).bind fun _ =>
    writes_recordSettlement ho hm _ _).bind fun _ => Method.writes_pure _

theorem touches_ingestSale (ho : .orders ∈ ts) (hm : .movements ∈ ts) (tenantId outletId : String)
    (sale : DeviceSale) :
    MethodTouches ts (atomically movementNote (ingestSale tenantId outletId sale)) := by
  refine writes_atomically <| writes_draw.bind fun _ =>
    (writes_update (touches_of_ne ho (by simp) fun s t ht => by cases t <;> simp_all [Table.Same])).bind
      fun _ => (writes_createPayments ho _ _).bind fun _ => ?_
  dsimp only
  split
  · exact writes_recordCash hm _ _ _ _ _ _
  · exact Tx.writes_pure _

/-! ### Refunds -/

theorem writes_drawFrom (amount : Binary64) (captured : List GatewayPayment) :
    TxTouches ts (drawFrom amount captured) := by
  induction captured with
  | nil => exact Tx.writes_pure _
  | cons g rest ih =>
    refine (writes_query _).bind fun _ => ?_
    split
    · exact Tx.writes_pure _
    · exact ih

theorem writes_updateRefund (hr : .refunds ∈ ts) (id : ℕ) (f : Refund → Refund)
    (hf : ∀ r, (f r).id = r.id) : Touches ts fun db => db.updateRefund id f hf :=
  touches_of_rows hr (fun s => rowsStay_updateRefund s id f hf) fun s t ht => by
    cases t <;> simp_all [Table.Same, PaymentsDb.updateRefund]

theorem writes_updateCollection (hr : .collections ∈ ts) (id : ℕ)
    (f : GatewayPayment → GatewayPayment) (hf : ∀ r, (f r).id = r.id) :
    Touches ts fun db => db.updateCollection id f hf :=
  touches_of_rows hr (fun s => rowsStay_updateCollection s id f hf) fun s t ht => by
    cases t <;> simp_all [Table.Same, PaymentsDb.updateCollection]

theorem writes_refundSource (order : Order) (input : RefundInput) :
    TxTouches ts (refundSource order input) := by
  unfold refundSource
  split
  · exact Tx.writes_pure _
  · exact (writes_query _).bind fun _ => writes_drawFrom _ _

theorem writes_checkRefundable (order : Order) (input : RefundInput) :
    TxTouches ts (checkRefundable order input) :=
  (writes_query _).bind fun _ => (writes_query _).bind fun _ => writes_check _ _

theorem touches_putRefund (h : .refunds ∈ ts) (r : Refund) :
    Touches ts fun db => { db with refunds := db.refunds.put r } :=
  touches_of_rows h (fun s => ⟨fun _ hx => exists_mem_put s.refunds r hx, (RowsStay.refl s).2⟩)
    fun s t ht => by cases t <;> simp_all [Table.Same]

theorem writes_payRefund (hc : .cards ∈ ts) (hm : .movements ∈ ts) (user : AuthUser)
    (order : Order) (input : RefundInput) (code : String) :
    TxTouches ts (payRefund user order input code) := by
  refine (writes_whenever (writes_issueStoreCreditTx hc _ _ _ _ _ _ _ _)).bind fun _ => ?_
  split
  · exact writes_recordCash hm _ _ _ _ _ _
  · exact Tx.writes_pure _

theorem writes_reserveRefund (hr : .refunds ∈ ts) (hc : .cards ∈ ts) (hm : .movements ∈ ts)
    (gateway : Gateway) (user : AuthUser) (now : Time) (outletId : String) (orderId : ℕ)
    (input : RefundInput) (code : String) :
    TxTouches ts (reserveRefund gateway user now outletId orderId input code) := by
  refine (writes_acquire _).bind fun _ => (writes_query _).bind fun _ => (writes_require _ _).bind
    fun _ => (writes_check _ _).bind fun _ => (writes_query _).bind fun existing => ?_
  cases existing with
  | some existing => exact (writes_check _ _).bind fun _ => Tx.writes_pure _
  | none =>
    exact (writes_checkRefundable _ _).bind fun _ => (writes_refundSource _ _).bind fun _ =>
      (writes_liftM _).bind fun _ => writes_draw.bind fun _ =>
      (writes_update (touches_putRefund hr _)).bind fun _ =>
      (writes_payRefund hc hm _ _ _ _).bind fun _ => Tx.writes_pure _

theorem touches_gatewayRefund (amount : Binary64) (orderRef : String) (reason : Option String)
    (key : ℕ) (paymentId : Option String) :
    MethodTouches ts (gatewayRefund amount orderRef reason key paymentId) :=
  (writes_ask _).bind fun reply => by cases reply <;> trivial

theorem touches_completeRefund (hr : .refunds ∈ ts) (id : ℕ) (ref : Option String)
    (status : RefundStatus) : MethodTouches ts (completeRefund id ref status) :=
  writes_atomically <| (writes_acquire _).bind fun _ =>
    (writes_update (writes_updateRefund hr _ _ _)).bind fun _ => (writes_query _).bind fun _ =>
    writes_require _ _

theorem touches_submitRefund (hr : .refunds ∈ ts) (input : RefundInput) (reserved : Reserved) :
    MethodTouches ts (submitRefund input reserved) := by
  unfold submitRefund
  split
  · exact writes_tryCatch ((writes_look _).bind fun _ => (touches_gatewayRefund _ _ _ _ _).bind
      fun _ => touches_completeRefund hr _ _ _) fun _ => touches_completeRefund hr _ _ _
  · exact Method.writes_pure _

theorem touches_refund (hr : .refunds ∈ ts) (hc : .cards ∈ ts) (hm : .movements ∈ ts)
    (gateway : Gateway) (user : AuthUser) (now : Time) (outletId : String) (orderId : ℕ)
    (input : RefundInput) (code : String) :
    MethodTouches ts (refund gateway user now outletId orderId input code) :=
  (writes_guardOr _ _).bind fun _ => (writes_guardOr _ _).bind fun _ =>
    (writes_atomically (writes_reserveRefund hr hc hm _ _ _ _ _ _ _)).bind fun _ =>
    (touches_submitRefund hr _ _).bind fun _ => Method.writes_pure _

/-! ### Collections -/

theorem touches_record (he : .events ∈ ts) (eventId : String) (effect : Effect) :
    Touches ts (·.recordEffect eventId effect) :=
  touches_of_ne he (by simp) fun s t ht => by cases t <;> simp_all [Table.Same, PaymentsDb.recordEffect]

/-- Only what a webhook reports goes into the record of events. -/
theorem writes_captureCollection (hc : .collections ∈ ts) {source : CaptureSource}
    (he : ∀ e, source = .webhook e → .events ∈ ts) (now : Time) (id : ℕ) (paymentId : String) :
    TxTouches ts (captureCollection now id paymentId source) := by
  refine writes_updateWhere (Touches.comp (g := source.record _)
    (writes_updateCollection hc id _ _) ?_)
  cases source with
  | webhook eventId => exact touches_record (he eventId rfl) _ _
  | recovery => exact touches_id
  | simulator => exact touches_id

theorem writes_leaveCreated (hc : .collections ∈ ts) (id : ℕ) (status : CollectionStatus) :
    TxTouches ts (leaveCreated id status) :=
  writes_updateWhere (writes_updateCollection hc _ _ _)

theorem touches_markPaid (hc : .collections ∈ ts) {source : CaptureSource}
    (he : ∀ e, source = .webhook e → .events ∈ ts) (now : Time) (id : ℕ) (paymentId : String)
    (amountPaise : Binary64) :
    MethodTouches ts (markPaid now id paymentId amountPaise source) := by
  refine (writes_look _).bind fun found => ?_
  cases found with
  | none => exact Method.writes_pure _
  | some g =>
    dsimp only
    split
    · exact Method.writes_pure _
    · split
      · exact Method.writes_pure _
      · exact (writes_atomically (writes_captureCollection hc he _ _ _)).bind
          fun _ => Method.writes_pure _

theorem touches_gatewayCancel (kind : CollectKind) (providerRef : String) :
    MethodTouches ts (gatewayCancel kind providerRef) :=
  (writes_ask _).bind fun _ => Method.writes_pure _

theorem touches_refreshCollect (hc : .collections ∈ ts) (now : Time) (g : GatewayPayment) : MethodTouches ts (refreshCollect now g) := by
  unfold refreshCollect
  split
  · exact Method.writes_pure _
  · refine .bind ((writes_ask _).bind fun reply => by cases reply <;> trivial) fun st => ?_
    split
    · exact (touches_markPaid hc (by simp) _ _ _ _).bind fun _ => Method.writes_pure _
    · dsimp only
      split
      · split
        · exact (touches_gatewayCancel _ _).bind fun _ => writes_atomically (writes_leaveCreated hc g.id _)
        · exact writes_atomically (writes_leaveCreated hc g.id _)
      · exact Method.writes_pure _

theorem touches_requireCollect (user : AuthUser) (outletId : String) (id : ℕ) :
    MethodTouches ts (requireCollect user outletId id) :=
  (writes_guardOr _ _).bind fun _ => (writes_look _).bind fun _ => writes_getOr _ _

theorem touches_currentCollect (id : ℕ) : MethodTouches ts (currentCollect id) :=
  (writes_look _).bind fun _ => writes_getOr _ _

theorem touches_getCollect (hc : .collections ∈ ts) (user : AuthUser) (now : Time) (outletId : String) (id : ℕ) : MethodTouches ts (getCollect user now outletId id) := by
  refine (touches_requireCollect _ _ _).bind fun g => ?_
  split
  · exact (writes_tryCatch (touches_refreshCollect hc _ _) fun _ => Method.writes_pure _).bind
      fun _ => touches_currentCollect _
  · exact Method.writes_pure _

theorem touches_cancelCollect (hc : .collections ∈ ts) (user : AuthUser) (outletId : String)
    (id : ℕ) : MethodTouches ts (cancelCollect user outletId id) := by
  refine (touches_requireCollect _ _ _).bind fun g => (writes_atomically (writes_leaveCreated hc _ _)).bind fun _ => ?_
  split
  · exact (touches_gatewayCancel _ _).bind fun _ => touches_currentCollect id
  · exact touches_currentCollect id

theorem touches_simulatePaid (hc : .collections ∈ ts) (gateway : Gateway) (user : AuthUser)
    (now : Time) (outletId : String) (id : ℕ) :
    MethodTouches ts (simulatePaid gateway user now outletId id) :=
  (writes_guardOr _ _).bind fun _ => (writes_guardOr _ _).bind fun _ =>
    (touches_requireCollect _ _ _).bind fun _ => (writes_guardOr _ _).bind fun _ =>
    (touches_markPaid hc (by simp) _ _ _ _).bind fun _ => touches_currentCollect _

theorem touches_putCollection (h : .collections ∈ ts) (g : GatewayPayment) :
    Touches ts fun db => { db with gatewayPayments := db.gatewayPayments.put g } :=
  touches_of_rows h
    (fun s => ⟨(RowsStay.refl s).1, fun _ hx => exists_mem_put s.gatewayPayments g hx⟩)
    fun s t ht => by cases t <;> simp_all [Table.Same]

theorem touches_createCollect (hc : .collections ∈ ts) (user : AuthUser) (now : Time)
    (payee : Payee) (outletId : String) (orderId : ℕ) (input : GatewayCollectInput) :
    MethodTouches ts (createCollect user now payee outletId orderId input) := by
  refine (writes_guardOr _ _).bind fun _ => (writes_look _).bind fun _ => (writes_getOr _ _).bind
    fun _ => (writes_guardOr _ _).bind fun _ => (writes_guardOr _ _).bind fun _ =>
    (writes_guardOr _ _).bind fun _ => .bind (writes_atomically ?_) fun _ =>
    writes_tryCatch (.bind ((writes_ask _).bind fun reply => by cases reply <;> trivial) fun _ =>
      writes_atomically ?_) fun _ => .bind (writes_atomically ?_) fun _ => writes_throw _
  · exact (writes_liftM _).bind fun _ => writes_draw.bind fun _ =>
      (writes_update (touches_putCollection hc _)).bind fun _ =>
      Tx.writes_pure _
  · exact (writes_acquire _).bind fun _ => (writes_update (writes_updateCollection hc _ _ _)).bind
      fun _ => (writes_query _).bind fun _ => writes_require _ _
  · exact (writes_acquire _).bind fun _ => writes_update (writes_updateCollection hc _ _ _)

/-! ### Webhooks and recovery -/

theorem writes_settleRefund (hr : .refunds ∈ ts) {source : RefundSource}
    (he : ∀ e, source = .webhook e → .events ∈ ts) (now : Time) (id : ℕ) (ref : String)
    (status : RefundStatus) : TxTouches ts (settleRefund now id ref status source) := by
  refine writes_updateWhere (Touches.comp (g := source.record _)
    (writes_updateRefund hr id _ _) ?_)
  cases source with
  | webhook eventId => exact touches_record (he eventId rfl) _ _
  | recovery => exact touches_id

theorem writes_markUncertain (hr : .refunds ∈ ts) (id : ℕ) : TxTouches ts (markUncertain id) :=
  writes_updateWhere (writes_updateRefund hr _ _ _)

theorem writes_claimRefund (hr : .refunds ∈ ts) (now stale : Time) (id : ℕ) :
    TxTouches ts (claimRefund now stale id) :=
  writes_updateWhere (writes_updateRefund hr _ _ _)

theorem writes_recordEvent (he : .events ∈ ts) (eventId event : String) :
    TxTouches ts (recordEvent eventId event) := by
  refine (writes_acquire _).bind fun _ => (writes_query _).bind fun existing => ?_
  cases existing with
  | some e => exact Tx.writes_pure _
  | none =>
    exact writes_draw.bind fun _ => (writes_update (touches_of_ne he (by simp) fun s t ht => by
      cases t <;> simp_all [Table.Same])).bind fun _ => Tx.writes_pure _

theorem writes_finishEvent (he : .events ∈ ts) (now : Time) (eventId outcome : String)
    (changed : Bool) : TxTouches ts (finishEvent now eventId outcome changed) := by
  refine (writes_acquire _).bind fun _ => writes_update (touches_of_ne he (by simp) fun s t ht => ?_)
  dsimp only
  split <;> cases t <;> simp_all [Table.Same, PaymentsDb.recordEffect]

theorem touches_applyEvent (hr : .refunds ∈ ts) (hc : .collections ∈ ts) (he : .events ∈ ts)
    (now : Time) (eventId : String) (body : RzpWebhook) :
    MethodTouches ts (applyEvent now eventId body) := by
  unfold applyEvent
  dsimp only
  split
  · split
    · exact Method.writes_pure _
    · split
      · exact Method.writes_pure _
      · refine (writes_look _).bind fun found => ?_
        cases found with
        | none => exact Method.writes_pure _
        | some g =>
          exact (touches_markPaid hc (fun _ _ => he) _ _ _ _).bind
            fun _ => Method.writes_pure _
  · split
    · split
      · exact Method.writes_pure _
      · refine (writes_look _).bind fun found => ?_
        cases found with
        | none => exact Method.writes_pure _
        | some r =>
          exact (writes_atomically (writes_settleRefund hr (fun _ _ => he) _ _ _ _)).bind fun _ =>
            Method.writes_pure _
    · exact Method.writes_pure _

theorem touches_handleRazorpayWebhook (hr : .refunds ∈ ts) (hc : .collections ∈ ts)
    (he : .events ∈ ts) (now : Time) (d : RzpDelivery) :
    MethodTouches ts (handleRazorpayWebhook now d) := by
  refine (writes_guardOr _ _).bind fun _ => (writes_getOr _ _).bind fun body =>
    (writes_atomically (writes_recordEvent he _ _)).bind fun new => ?_
  dsimp only
  split
  · exact (touches_applyEvent hr hc he _ _ _).bind fun r =>
      (writes_atomically (writes_finishEvent he _ _ _ _)).bind fun _ => Method.writes_pure _
  · exact Method.writes_pure _

theorem touches_resubmitRefund (r : Refund) (paymentId : Option String) :
    MethodTouches ts (resubmitRefund r paymentId) := by
  refine .bind ((writes_ask _).bind fun reply => by cases reply <;> trivial) fun found => ?_
  cases found with
  | some res => exact Method.writes_pure _
  | none => exact (writes_look _).bind fun _ => touches_gatewayRefund _ _ _ _ _

theorem touches_reconcileRefund (hr : .refunds ∈ ts) (gateway : Gateway)
    (now : Time) (refundId : ℕ) : MethodTouches ts (reconcileRefund gateway now refundId) := by
  refine (writes_look _).bind fun found => ?_
  cases found with
  | none => exact Method.writes_pure _
  | some r =>
    refine (writes_look _).bind fun captured => ?_
    dsimp only
    split
    · exact Method.writes_pure _
    · refine writes_tryCatch ((touches_resubmitRefund _ _).bind fun res =>
        (writes_atomically (writes_settleRefund hr (by simp) _ _ _ _)).bind fun _ =>
          Method.writes_pure _) fun e => ?_
      split
      · exact (writes_atomically (writes_markUncertain hr _)).bind fun _ => Method.writes_pure _
      · exact Method.writes_pure _

theorem touches_recoveryTick (hr : .refunds ∈ ts) (hc : .collections ∈ ts) (gateway : Gateway) (now : Time) : MethodTouches ts (recoveryTick gateway now) := by
  refine (writes_look _).bind fun _ => .bind (writes_forM (fun r => ?_) _) fun _ =>
    (writes_look _).bind fun _ => writes_forM (fun g => (writes_tryCatch
      (touches_refreshCollect hc _ _) fun _ => Method.writes_pure _).bind fun _ =>
      Method.writes_pure _) _
  refine (writes_atomically (writes_claimRefund hr _ _ _)).bind fun _ => ?_
  split
  · exact (touches_reconcileRefund hr _ _ _).bind fun _ => Method.writes_pure _
  · exact Method.writes_pure _

theorem touches_reconcileRefundNow (hr : .refunds ∈ ts) (gateway : Gateway) (user : AuthUser)
    (now : Time) (outletId : String) (refundId : ℕ) :
    MethodTouches ts (reconcileRefundNow gateway user now outletId refundId) :=
  (writes_guardOr _ _).bind fun _ => (writes_look _).bind fun _ => (writes_getOr _ _).bind fun _ =>
    (touches_reconcileRefund hr _ _ _).bind fun _ => (writes_look _).bind fun _ =>
    (writes_getOr _ _).bind fun _ => Method.writes_pure _

/-! ### All requests -/

/-- The tables that a request touches. -/
def PaymentRequest.tables : PaymentRequest → List Table
  | settle .. => [.orders, .cards, .movements]
  | ingest .. => [.orders, .movements]
  | refund .. => [.refunds, .cards, .movements]
  | createCollect .. | getCollect .. | cancelCollect .. | simulatePaid .. => [.collections]
  | webhook .. => [.refunds, .collections, .events]
  | recoveryTick .. => [.refunds, .collections]
  | reconcileRefund .. => [.refunds]
  | openDrawer .. | closeDrawer .. => [.sessions]
  | addMovement .. | createExpense .. | voidExpense .. => [.movements, .expenses]
  | giveAdvance .. => [.movements]
  | issueGiftCard .. => [.cards, .movements]
  | voidGiftCard .. => [.cards]

/-- A request writes to its tables only. -/
theorem PaymentRequest.touches (gateway : Gateway) (r : PaymentRequest) :
    MethodTouches r.tables (r.run gateway) := by
  have hquiet : ∀ {α : Type} {x : PaymentMethod α} {ts}, MethodTouches ts x →
      MethodTouches ts (quiet x) := fun h => h.bind fun _ => Method.writes_pure _
  cases r with
  | settle => exact hquiet (touches_settleOrder (by simp [tables]) (by simp [tables])
      (by simp [tables]) _ _ _ _)
  | ingest => exact hquiet (touches_ingestSale (by simp [tables]) (by simp [tables]) _ _ _)
  | refund => exact hquiet (touches_refund (by simp [tables]) (by simp [tables])
      (by simp [tables]) _ _ _ _ _ _ _)
  | createCollect => exact hquiet (touches_createCollect (by simp [tables]) _ _ _ _ _ _)
  | getCollect => exact hquiet (touches_getCollect (by simp [tables]) _ _ _ _)
  | cancelCollect => exact hquiet (touches_cancelCollect (by simp [tables]) _ _ _)
  | simulatePaid => exact hquiet (touches_simulatePaid (by simp [tables]) _ _ _ _ _)
  | webhook =>
    exact (touches_handleRazorpayWebhook (by simp [tables]) (by simp [tables])
      (by simp [tables]) _ _).bind fun _ => Method.writes_pure _
  | recoveryTick =>
    exact hquiet (touches_recoveryTick (by simp [tables]) (by simp [tables]) _ _)
  | reconcileRefund => exact hquiet (touches_reconcileRefundNow (by simp [tables]) _ _ _ _ _)
  | openDrawer => exact hquiet (touches_openDrawer (by simp [tables]) _ _ _ _)
  | closeDrawer => exact hquiet (touches_closeDrawer (by simp [tables]) _ _ _ _)
  | addMovement => exact hquiet (touches_addMovement (by simp [tables]) (by simp [tables]) _ _ _)
  | createExpense => exact hquiet (touches_createExpense (by simp [tables]) (by simp [tables]) _ _ _)
  | voidExpense => exact hquiet (touches_voidExpense (by simp [tables]) (by simp [tables]) _ _ _ _)
  | giveAdvance => exact hquiet (touches_giveAdvance (by simp [tables]) _ _ _)
  | issueGiftCard => exact hquiet (touches_issueGiftCard (by simp [tables]) (by simp [tables]) _ _ _ _ _)
  | voidGiftCard => exact hquiet (touches_voidGiftCard (by simp [tables]) _ _ _)

/-! ### Terms about some tables -/

section Terms

open Process Discipline

variable {D : Discipline PaymentsDb LockKey} {L : Hold LockKey → Prop} {K : PaymentsDb → Prop}
  {f : PaymentsDb → PaymentsDb} {ts ts₀ : List Table} {α : Type}

/-- A discipline that writes to other tables than these always keep. -/
def About (D : Discipline PaymentsDb LockKey) (ts₀ : List Table) : Prop :=
  ∀ ⦃ts f⦄, Touches ts f → (∀ t ∈ ts₀, t ∉ ts) → ∀ L s n, D.inv s n →
    D.inv (f s) n ∧ D.step L s (f s)

/-- Writes to other tables can be committed. -/
theorem About.commitsTo (hD : About D ts₀)
    {admits : Note → (Hold LockKey → Prop) → PaymentsDb → Prop} (hf : Touches ts f)
    (hts : ∀ t ∈ ts₀, t ∉ ts) (note : Note) :
    Process.CommitsTo D admits note L K f fun _ => True :=
  ⟨stable_true, fun s n hs _ _ _ =>
    have h := hD hf hts L s n hs
    ⟨h.1, h.2, trivial⟩⟩

/-- A part of a transaction that touches other tables. -/
theorem wp_of_txTouches {T : List Table} {post : (Hold LockKey → Prop) → (PaymentsDb → Prop) →
      (PaymentsDb → PaymentsDb) → α → Prop} {t : PaymentTx α} (ht : TxTouches T t)
    (hK : D.Stable L K)
    (h : ∀ L' w a, (∀ k, L k → L' k) → Touches T w → post L' K (w ∘ f) a) :
    D.wp t L K f post :=
  wp_of_writes touches_id (fun _ _ => Touches.comp) ht hK h

/-- A method that touches other tables. -/
theorem wp_of_methodTouches {admits : Note → (Hold LockKey → Prop) → PaymentsDb → Prop}
    (hD : About D ts₀) {x : PaymentMethod α} (hx : MethodTouches ts x)
    (hts : ∀ t ∈ ts₀, t ∉ ts) (hf : Touches ts f)
    {post : (Hold LockKey → Prop) → (PaymentsDb → Prop) → (PaymentsDb → PaymentsDb) →
      Except PaymentError α → Prop} (hpost : ∀ L K f a, Touches ts f → post L K f a) :
    x.run.wp D admits L K f post :=
  Process.wp_of_writes touches_id (fun _ _ => Touches.comp)
    (fun _ hw L s n hs => hD hw hts L s n hs) hx hf hpost

/-- A request that touches other tables keeps the terms. -/
theorem kept_of_touches {T : Terms PaymentsDb LockKey Note (Except PaymentError (Option String))}
    (hT : About T.toDiscipline ts₀) (hsaid : ∀ a s, T.said a s) {gateway : Gateway}
    {r : PaymentRequest} (hr : ∀ t ∈ ts₀, t ∉ r.tables) : T.Kept (r.run gateway).run :=
  wp_of_methodTouches hT (r.touches gateway) hr touches_id fun _ _ _ a _ s _ _ _ => hsaid a s

/-- A request that touches other tables and answers nothing keeps the terms, if its refusals say
nothing. -/
theorem kept_quiet {T : Terms PaymentsDb LockKey Note (Except PaymentError (Option String))}
    (hT : About T.toDiscipline ts₀) (hnone : ∀ s, T.said (.ok none) s)
    (hrefused : ∀ e s, T.said (.error e) s) {x : PaymentMethod α} (hx : MethodTouches ts (quiet x))
    (hts : ∀ t ∈ ts₀, t ∉ ts) : T.Kept (quiet x).run := by
  unfold Terms.Kept quiet
  rw [wp_method_bind]
  refine wp_of_methodTouches hT hx.of_bind hts touches_id fun L K f r _ => ?_
  cases r with
  | ok a => exact fun s _ _ _ => hnone s
  | error e => exact fun s _ _ _ => hrefused e s

end Terms

end StelloKitchens.Payments
