import StelloKitchens.Billing.EdgeBills
import StelloKitchens.Billing.Requests
import StelloKitchens.Billing.Touches
import StelloKitchens.Printing.BillFoots

/-!
# The stored figures add up

The figures of an order are stored by the settlements at the counter and of checks, by synchronised
orders and by devices' sales. They are always stored together, as one of the two ways to compute a
bill gives them, or emptied together when bills are merged. So they add up in every order, however
the requests interleave.

## Main definitions

* `SalesRequest`, `sales` — all requests that open, change or bring in bills, side by side.
* `Footed` — figures that add up.
* `Steady` — writes that keep all figures adding up.

## Main results

* `steady_run` — every request makes only such writes.
* `footed_of_sales` — the figures add up in every state.
-/

namespace StelloKitchens.Invoices

open Billing Checked Discipline Tx

/-! ### The requests -/

/-- What opens, changes or closes bills at the outlet, and the sales that devices bring in. -/
inductive SalesRequest
  | billing (request : BillingRequest)
  | ingestEdgeBill (device : EdgeDeviceContext) (sale : EdgeSale)

/-- The transaction of a request. -/
def SalesRequest.run : SalesRequest → BillingTx Unit
  | billing request => request.run
  | ingestEdgeBill device sale => Billing.ingestEdgeBill device sale

/-- The requests side by side. -/
def sales : Machine (World BillingDb LockKey Unit Empty Empty (Except BillingError Unit))
    (WorldAction SalesRequest Empty) :=
  serve (fun r => .transaction (fun _ => ()) r.run) fun db _ => NoBills db

/-! ### Figures that add up -/

/-- The figures add up to the total, and no more is taken off than is sold. -/
structure Footed (f : OrderFigures) : Prop where
  sum : f.subtotal.scaled - f.discountAmount.scaled + f.serviceChargeAmount.scaled +
    f.taxAmount.scaled + f.roundOff.scaled = f.total.scaled
  discount_le : f.discountAmount.scaled ≤ f.subtotal.scaled

theorem footed_of_consistent {f : OrderFigures} (h : Printing.Consistent f) : Footed f := by
  refine ⟨h.sum, ?_⟩
  rcases lt_or_ge f.subtotal.scaled 0 with hneg | hpos
  · exact (h.below hneg).1.le
  · exact (h.discount hpos).2

theorem footed_zero : Footed .zero := ⟨rfl, le_rfl⟩

theorem footed_emptied (f : OrderFigures) : Footed f.emptied := ⟨rfl, le_rfl⟩

theorem whole_moneyLines (items : List OrderItem) :
    ∀ l ∈ items.map (·.moneyLine), ∃ m : ℤ, l.lineTotalPaise.val = (m : ℚ) := by
  intro l hl
  obtain ⟨i, -, rfl⟩ := List.mem_map.mp hl
  exact ⟨i.lineTotal.scaled, val_toPaise_toNumber i.lineTotal⟩

/-- The figures of a bill at the counter add up. -/
theorem footed_of_figuresOf {items : List OrderItem} {opts : BillOptions}
    {sc : Option ServiceCharge} {f : OrderFigures}
    (h : figuresOf (computeBill (items.map (·.moneyLine)) opts) sc = .ok f) : Footed f :=
  footed_of_consistent
    (Printing.consistent_of_stored (whole_moneyLines items) (Printing.stored_of_figuresOf h))

theorem whole_lineTotal {price quantity : Binary64} (h : quantity.IsInteger) :
    ∃ m : ℤ, (lineTotalPaise price quantity).val = m := by
  obtain ⟨p, hp⟩ := Binary64.nearestInt_isInt (price * 100)
  have hq : quantity.val = (quantity.val.num : ℚ) := (Rat.coe_int_num_of_den_eq_one h).symm
  rw [lineTotalPaise, Binary64.val_mul, toPaise, hp, hq, ← Int.cast_mul]
  exact Binary64.round_isInt _

theorem whole_lineMoney {order : EdgeOrderInput} (hschema : EdgeOrderSchema order) :
    ∀ l ∈ lineMoney order, ∃ m : ℤ, l.lineTotalPaise.val = (m : ℚ) := by
  intro l hl
  rcases List.mem_append.mp hl with hl | hl
  · obtain ⟨i, hi, rfl⟩ := List.mem_map.mp hl
    exact whole_lineTotal (hschema.items i hi).quantity.1
  · obtain ⟨i, hi, rfl⟩ := List.mem_map.mp hl
    exact whole_lineTotal (hschema.combos i hi).quantity.1

theorem store_fromPaise_zero : store (fromPaise 0) = .ok (0 : Amount) :=
  orThrow_eq_ok.mpr ((ofNumber_fromPaise_eq_some (m := 0) (by simp)).mpr rfl)

theorem roundOff_plain (lines : List MoneyLine) (discount : Binary64) :
    (computeBill lines ⟨discount, none, false⟩).roundOff = fromPaise 0 := by
  refine congrArg fromPaise (Binary64.ext ?_)
  rw [Binary64.val_sub]
  simp

/-- The figures of a device's sale are those of a bill without service charge and round-off. -/
theorem stored_of_saleFigures {order : EdgeOrderInput} {totals : OrderTotals}
    (htotals : checkFigures order = .ok totals) {f : OrderFigures}
    (h : saleFigures totals = .ok f) : Printing.Stored f (computeBill (lineMoney order)
      ⟨fromPaise (toPaise order.manualDiscount + toPaise order.couponDiscount), none, false⟩) := by
  have hplain := computeBill_plain (lineMoney order)
    (fromPaise (toPaise order.manualDiscount + toPaise order.couponDiscount))
  obtain rfl : cloudTotals order = totals := by
    obtain ⟨-, -, h⟩ := bind_eq_ok.mp htotals
    obtain ⟨-, -, h⟩ := bind_eq_ok.mp h
    exact pure_eq_ok.mp h
  rw [cloudTotals, ← hplain] at h
  unfold saleFigures at h
  obtain ⟨_, h₁, h⟩ := bind_eq_ok.mp h
  obtain ⟨_, h₂, h⟩ := bind_eq_ok.mp h
  obtain ⟨_, h₃, h⟩ := bind_eq_ok.mp h
  obtain ⟨_, h₄, h⟩ := bind_eq_ok.mp h
  cases pure_eq_ok.mp h
  refine ⟨h₁, h₂, store_fromPaise_zero, h₃, ?_, h₄⟩
  rw [roundOff_plain]
  exact store_fromPaise_zero

/-- The figures of a device's sale add up. -/
theorem footed_of_saleFigures {order : EdgeOrderInput} (hschema : EdgeOrderSchema order)
    {totals : OrderTotals} (htotals : checkFigures order = .ok totals) {f : OrderFigures}
    (h : saleFigures totals = .ok f) : Footed f :=
  footed_of_consistent
    (Printing.consistent_of_stored (whole_lineMoney hschema) (stored_of_saleFigures htotals h))

/-! ### Writes that keep the figures adding up -/

/-- The figures of every order add up. -/
def AllFooted (db : BillingDb) : Prop := ∀ o ∈ db.orders, Footed o.figures

/-- A write after which the figures of every order add up, if they did before. -/
def Steady (w : BillingDb → BillingDb) : Prop := ∀ db, AllFooted db → AllFooted (w db)

theorem steady_id : Steady id := fun _ => id

theorem Steady.comp {f g : BillingDb → BillingDb} (hf : Steady f) (hg : Steady g) :
    Steady (g ∘ f) := fun db h => hg (f db) (hf db h)

theorem steady_of_orders {w : BillingDb → BillingDb} (h : ∀ db, (w db).orders = db.orders) :
    Steady w := fun db hdb o ho => hdb o (h db ▸ ho)

theorem steady_of_touches (ts : List Table) {w : BillingDb → BillingDb} (h : Touches ts w)
    (hts : .orders ∉ ts) : Steady w := steady_of_orders fun db => h db .orders hts

theorem steady_updateOrder {id : RowId} {f : Billing.Order → Billing.Order}
    {hf : ∀ o, (f o).id = o.id}
    (h : ∀ o, Footed o.figures → Footed (f o).figures) :
    Steady fun db => db.updateOrder id f hf := by
  intro db hdb o ho
  obtain ⟨r, hr, rfl⟩ := (KeyedTable.mem_modify hf).mp ho
  split
  · exact h r (hdb r hr)
  · exact hdb r hr

theorem steady_insertOrder {o : Billing.Order} (h : Footed o.figures) :
    Steady fun db => db.insertOrder o := by
  intro db hdb r hr
  rcases KeyedTable.mem_put.mp hr with rfl | ⟨hr, -⟩
  · exact h
  · exact hdb r hr

theorem steady_setFigures (id : RowId) {f : OrderFigures} (h : Footed f) :
    Steady fun db => db.setFigures id f := steady_updateOrder fun _ _ => h

theorem steady_closeMerged (sourceIds : List RowId) (targetId : RowId) :
    Steady fun db => db.closeMerged sourceIds targetId := by
  intro db hdb o ho
  simp only [BillingDb.closeMerged, KeyedTable.mem_modify] at ho
  obtain ⟨r, hr, rfl⟩ := ho
  split
  · exact footed_emptied r.figures
  · exact hdb r hr

theorem steady_deleteChecks (ids : List RowId) : Steady fun db => db.deleteChecks ids :=
  fun _ hdb o ho => hdb o (KeyedTable.mem_delete.mp ho).1

/-! ### The parts of the requests -/

theorem writes_of_touches (ts : List Table) {α : Type} {t : BillingTx α} (h : TxTouches ts t)
    (hts : .orders ∉ ts) : t.Writes Steady :=
  h.mono fun _ hw => steady_of_touches ts hw hts

theorem does_billFor_bill (orderId : RowId) (discount : Binary64) (plain : Bool) :
    (Billing.billFor orderId discount plain).Does fun _ r =>
      ∃ (items : List OrderItem) (opts : BillOptions),
        r.1 = computeBill (items.map (·.moneyLine)) opts := by
  simp only [Billing.billFor, loadBillingRules, does_bind, does_query, does_require, does_pure]
  intro _ _ _ _ _
  exact ⟨_, _, rfl⟩

/-- What is computed anew adds up. -/
theorem steady_recomputeTotals (orderId : RowId) (discount : Option Binary64) (plain : Bool) :
    (recomputeTotals orderId discount plain).Writes Steady := by
  refine (writes_query _).bind fun _ => (writes_require _ _).bind fun order =>
    Writes.bind_does (writes_billFor _ _ _) (does_billFor_bill _ _ _) ?_
  rintro _ ⟨totals, sc⟩ ⟨items, opts, rfl⟩
  refine Writes.bind_does (writes_liftM _) (W := fun _ f => Footed f) ?_ fun _ f hf =>
    (writes_update (steady_setFigures _ hf)).bind fun _ => writes_pure _
  rw [does_liftM]
  exact fun f hf => footed_of_figuresOf hf

theorem steady_punchItems (menu : Menu) (t : PunchTarget) (opts : PunchOptions)
    (items : List OrderItemInput) (combos : List ComboOrderInput) :
    (punchItems menu t opts items combos).Writes Steady :=
  (writes_query _).bind fun _ => (writes_require _ _).bind fun _ =>
    (writes_drawNumber (steady_of_orders fun _ => rfl)).bind fun _ =>
    (writes_update (steady_of_orders fun _ => rfl)).bind fun _ => (writes_liftM _).bind fun _ =>
    (writes_update (steady_of_orders fun _ => rfl)).bind fun _ =>
    writes_update (steady_of_orders fun _ => rfl)

variable {V : (BillingDb → BillingDb) → Prop}

theorem writes_requireOrder (user : AuthUser) (orderId : RowId) :
    (requireOrder user orderId).Writes V :=
  (writes_query _).bind fun _ => (writes_require _ _).bind fun _ => (writes_liftM _).bind fun _ =>
    writes_pure _

theorem writes_lockTable (outletId tableId : String) : (lockTable outletId tableId).Writes V :=
  (writes_acquire _).bind fun _ => (writes_query _).bind fun _ => writes_check _ _

theorem writes_lockTables (outletId : String) (tableIds : List (Option String)) :
    (lockTables outletId tableIds).Writes V := by
  unfold lockTables
  induction (tableIds.filterMap truthy).dedup.insertionSort (· ≤ ·) with
  | nil => exact writes_pure _
  | cons id ids ih => exact (writes_lockTable _ _).bind fun _ => ih

theorem writes_lockOrders (user : AuthUser) (ids : List RowId) :
    (lockOrders user ids).Writes V := by
  have heach : ∀ ids : List RowId, (lockOrders.lockEach ids).Writes V := by
    intro ids
    induction ids with
    | nil => exact writes_pure _
    | cons id ids ih =>
      exact (writes_acquire _).bind fun _ => (writes_query _).bind fun _ =>
        (writes_check _ _).bind fun _ => ih
  exact (heach _).bind fun _ => (writes_query _).bind fun _ => (writes_check _ _).bind fun _ =>
    writes_pure _

theorem writes_runningBill (outletId tableId : String) :
    (runningBill outletId tableId).Writes V := by
  refine (writes_lockTable _ _).bind fun _ => (writes_query _).bind fun existing => ?_
  cases existing with
  | none => exact writes_pure _
  | some found =>
    exact (writes_acquire _).bind fun _ => (writes_query _).bind fun _ =>
      (writes_check _ _).bind fun _ => writes_pure _

theorem writes_checkSyncedTable (outletId deviceId : String) (order : Billing.SyncedOrderInput)
    (tableId : String) : (checkSyncedTable outletId deviceId order tableId).Writes V := by
  refine (writes_lockTable _ _).bind fun _ => (writes_query _).bind fun previous => ?_
  split
  · exact writes_pure _
  · exact (writes_query _).bind fun _ => (writes_check _ _).bind fun _ => writes_pure _

theorem writes_lockSaleTable (outletId : String) (order : EdgeOrderInput) :
    (lockSaleTable outletId order).Writes V := by
  unfold lockSaleTable
  split
  · exact (writes_acquire _).bind fun _ => (writes_query _).bind fun _ => writes_pure _
  · exact writes_pure _

theorem steady_nextBillNumber (outletId : String) : (nextBillNumber outletId).Writes Steady :=
  writes_drawNumber (steady_of_orders fun _ => rfl)

theorem steady_moveAll (sourceIds : List RowId) (target : Billing.Order) :
    (moveAll sourceIds target).Writes Steady := by
  refine (writes_update (steady_of_orders fun _ => rfl)).bind fun _ =>
    (writes_whenever ?_).bind fun _ => writes_update (steady_closeMerged _ _)
  refine (writes_query _).bind fun _ => writes_forM (fun _ => writes_update ?_) _
  exact steady_updateOrder fun _ h => h

theorem steady_createChecks (parent : Billing.Order) (stamp : ℕ) (c : ℕ)
    (checks : List (List CheckRow × Binary64)) :
    (createChecks parent stamp c checks).Writes Steady := by
  induction checks generalizing c with
  | nil => exact writes_pure _
  | cons check checks ih =>
    refine Writes.bind ?_ fun _ => ih _
    exact (writes_liftM _).bind fun _ => (writes_update (steady_insertOrder footed_zero)).bind
      fun _ => (writes_liftM _).bind fun _ => (writes_update (steady_of_orders fun _ => rfl)).bind
      fun _ => (steady_recomputeTotals _ _ _).bind fun _ => writes_pure _

theorem steady_insertSynced (menu : Menu) (outletId deviceId : String)
    (order : Billing.SyncedOrderInput) (tableId : Option String) :
    (insertSynced menu outletId deviceId order tableId).Writes Steady := by
  have hpayments : ∀ id : RowId, Writes Steady (order.payments.mapM fun p =>
      return (⟨id, .tender p.mode, ← store p.amount⟩ : OrderPayment) : BillingTx _) := fun _ =>
    writes_mapM (fun _ => (writes_liftM _).bind fun _ => writes_pure _) _
  unfold insertSynced
  dsimp only
  split
  · exact (writes_map (steady_nextBillNumber _)).bind fun _ => (writes_acquire _).bind fun _ =>
      (writes_query _).bind fun _ => (writes_check _ _).bind fun _ => writes_draw.bind fun _ =>
      (writes_update (steady_insertOrder footed_zero)).bind fun _ =>
      (steady_punchItems _ _ _ _ _).bind fun _ => (steady_recomputeTotals _ _ _).bind fun _ =>
      (writes_check _ _).bind fun _ => (hpayments _).bind fun _ =>
      writes_update (steady_of_orders fun _ => rfl)
  · exact (writes_pure _).bind fun _ => (writes_acquire _).bind fun _ =>
      (writes_query _).bind fun _ => (writes_check _ _).bind fun _ => writes_draw.bind fun _ =>
      (writes_update (steady_insertOrder footed_zero)).bind fun _ =>
      (steady_punchItems _ _ _ _ _).bind fun _ => (steady_recomputeTotals _ _ _).bind fun _ =>
      (writes_check _ _).bind fun _ => (hpayments _).bind fun _ =>
      writes_update (steady_of_orders fun _ => rfl)

/-! ### The requests -/

theorem steady_create (user : AuthUser) (menu : Menu) (input : CreateOrderInput) :
    (create user menu input).Writes Steady := by
  unfold create
  refine (writes_liftM _).bind fun _ => ?_
  split
  · exact (writes_require _ _).bind fun _ => (writes_lockTable _ _).bind fun _ =>
      (writes_query _).bind fun _ => (writes_check _ _).bind fun _ => writes_draw.bind fun _ =>
      (writes_update (steady_insertOrder footed_zero)).bind fun _ =>
      (steady_punchItems _ _ _ _ _).bind fun _ => (steady_recomputeTotals _ _ _).bind fun _ =>
      writes_pure _
  · exact writes_draw.bind fun _ => (writes_update (steady_insertOrder footed_zero)).bind fun _ =>
      (steady_punchItems _ _ _ _ _).bind fun _ => (steady_recomputeTotals _ _ _).bind fun _ =>
      writes_pure _

theorem steady_ingestAggregatorOrder (menu : Menu) (input : AggregatorInput) :
    (ingestAggregatorOrder menu input).Writes Steady :=
  writes_draw.bind fun _ => (writes_update (steady_insertOrder footed_zero)).bind fun _ =>
    (steady_punchItems _ _ _ _ _).bind fun _ => (steady_recomputeTotals _ _ _).bind fun _ =>
    (writes_query _).bind fun _ => writes_pure _

theorem steady_ingestScanOrder (menu : Menu) (input : ScanInput) :
    (ingestScanOrder menu input).Writes Steady := by
  have hround : ∀ (orderType : OrderType) (id : RowId) (stamp : ℕ), Writes Steady (do
      punchItems menu ⟨id, input.outletId, stamp⟩ ⟨.scan orderType, false⟩ input.round.items
        input.round.combos
      let _ ← recomputeTotals id none false
      return id : BillingTx RowId) := fun _ _ _ =>
    (steady_punchItems _ _ _ _ _).bind fun _ => (steady_recomputeTotals _ _ _).bind fun _ =>
      writes_pure _
  unfold ingestScanOrder
  dsimp only
  split
  · refine (writes_require _ _).bind fun _ => (writes_runningBill _ _).bind fun order =>
      writes_draw.bind fun _ => ?_
    cases order with
    | some order => exact (writes_pure _).bind fun _ => hround _ _ _
    | none =>
      exact (writes_update (steady_insertOrder footed_zero)).bind fun _ =>
        (writes_pure _).bind fun _ => hround _ _ _
  · exact writes_draw.bind fun _ => (writes_update (steady_insertOrder footed_zero)).bind fun _ =>
      (writes_pure _).bind fun _ => hround _ _ _

theorem steady_addItems (user : AuthUser) (menu : Menu) (orderId : RowId) (round : RoundInput) :
    (addItems user menu orderId round).Writes Steady :=
  (writes_requireOrder _ _).bind fun _ => (writes_lockOpenOrder _ _).bind fun _ =>
    (writes_liftM _).bind fun _ => writes_draw.bind fun _ => (steady_punchItems _ _ _ _ _).bind
    fun _ => (steady_recomputeTotals _ _ _).bind fun _ => writes_pure _

theorem steady_applySyncedOrder (menu : Menu) (outletId deviceId : String)
    (order : Billing.SyncedOrderInput) :
    (applySyncedOrder menu outletId deviceId order).Writes Steady := by
  unfold applySyncedOrder
  split
  · refine (writes_require _ _).bind fun _ => (writes_checkSyncedTable _ _ _ _).bind fun _ => ?_
    split
    · exact writes_pure _
    · exact steady_insertSynced _ _ _ _ _
  · exact steady_insertSynced _ _ _ _ _

theorem steady_setServiceCharge (user : AuthUser) (orderId : RowId) (waive : Bool) :
    (setServiceCharge user orderId waive).Writes Steady := by
  refine (writes_lockOpenOrder _ _).bind fun _ => (writes_check _ _).bind fun _ =>
    (writes_update ?_).bind fun _ => (steady_recomputeTotals _ _ _).bind fun _ => writes_pure _
  exact steady_updateOrder fun _ h => h

theorem steady_merge (user : AuthUser) (targetId : RowId) (input : MergeInput) :
    (merge user targetId input).Writes Steady := by
  refine (writes_check _ _).bind fun _ => (writes_query _).bind fun _ => (writes_check _ _).bind
    fun _ => (writes_require _ _).bind fun _ => (writes_check _ _).bind fun _ =>
    (writes_liftM _).bind fun _ => (writes_lockTables _ _).bind fun _ =>
    (writes_lockOrders _ _).bind fun _ => (writes_liftM _).bind fun _ => (writes_liftM _).bind
    fun _ => Writes.bind ?_ fun _ => (steady_moveAll _ _).bind fun _ =>
    (steady_recomputeTotals _ _ _).bind fun _ => writes_pure _
  exact writes_foldlM (fun _ _ => (writes_liftM _).bind fun _ => (writes_check _ _).bind fun _ =>
    writes_liftM _) _ _

theorem writes_transferExisting (user : AuthUser) (outletId toTableId : String) :
    (transferExisting user outletId toTableId).Writes V := by
  refine (writes_query _).bind fun _ => (writes_require _ _).bind fun _ => (writes_query _).bind
    fun existing => ?_
  cases existing with
  | none => exact writes_pure _
  | some found =>
    exact (writes_lockOrders _ _).bind fun _ => (writes_liftM _).bind fun _ =>
      (writes_liftM _).bind fun _ => writes_pure _

theorem steady_transferBill (source : Billing.Order) (toTableId : String)
    (target : Option Billing.Order) :
    (transferBill source toTableId target).Writes Steady := by
  cases target with
  | some target =>
    exact (steady_moveAll _ _).bind fun _ => (steady_recomputeTotals _ _ _).bind fun _ =>
      writes_pure _
  | none =>
    refine (writes_update ?_).bind fun _ => (steady_recomputeTotals _ _ _).bind fun _ =>
      writes_pure _
    exact steady_updateOrder fun _ h => h

theorem steady_transferLines (source : Billing.Order) (toTableId : String)
    (target : Option Billing.Order)
    (lines : List OrderItem) (moves : Moves) :
    (transferLines source toTableId target lines moves).Writes Steady := by
  refine writes_draw.bind fun _ => Writes.bind ?_ fun _ => (writes_liftM _).bind fun _ =>
    (writes_update (steady_of_orders fun _ => rfl)).bind fun _ => (writes_query _).bind fun _ =>
    (writes_update (steady_of_orders fun _ => rfl)).bind fun _ =>
    (steady_recomputeTotals _ _ _).bind fun _ => (steady_recomputeTotals _ _ _).bind fun _ =>
    writes_pure _
  cases target with
  | some target => exact writes_pure _
  | none => exact (writes_update (steady_insertOrder footed_zero)).bind fun _ => writes_pure _

theorem steady_transfer (user : AuthUser) (orderId : RowId) (input : TransferInput) :
    (transfer user orderId input).Writes Steady := by
  refine (writes_requireOrder _ _).bind fun _ => (writes_check _ _).bind fun _ =>
    (writes_lockTables _ _).bind fun _ => (writes_lockOrders _ _).bind fun _ =>
    (writes_liftM _).bind fun _ => (writes_liftM _).bind fun _ => (writes_check _ _).bind fun _ =>
    (writes_transferExisting _ _ _).bind fun _ => (writes_query _).bind fun _ => ?_
  split
  · exact steady_transferBill _ _ _
  · refine (writes_liftM _).bind fun _ => ?_
    split
    · exact steady_transferBill _ _ _
    · exact steady_transferLines _ _ _ _ _

theorem steady_split (user : AuthUser) (orderId : RowId) (input : SplitInput) :
    (split user orderId input).Writes Steady := by
  refine (writes_lockOpenOrder _ _).bind fun _ => (writes_check _ _).bind fun _ =>
    (writes_check _ _).bind fun _ => (writes_query _).bind fun _ => (writes_check _ _).bind fun _ =>
    (writes_liftM _).bind fun _ => writes_draw.bind fun _ => (steady_createChecks _ _ _ _).bind
    fun _ => writes_update ?_
  exact steady_updateOrder fun _ h => h

theorem steady_unsplit (user : AuthUser) (orderId : RowId) :
    (unsplit user orderId).Writes Steady := by
  refine (writes_requireOrder _ _).bind fun _ => (writes_query _).bind fun _ =>
    (writes_lockOrders _ _).bind fun _ => (writes_lockOpenOrder _ _).bind fun _ =>
    (writes_check _ _).bind fun _ => (writes_query _).bind fun _ => (writes_check _ _).bind fun _ =>
    (writes_check _ _).bind fun _ => (writes_update (steady_deleteChecks _)).bind fun _ =>
    (writes_update ?_).bind fun _ => (steady_recomputeTotals _ _ _).bind fun _ =>
    writes_update (steady_of_orders fun _ => rfl)
  exact steady_updateOrder fun _ h => h

theorem steady_settle (user : AuthUser) (now : Time) (orderId : RowId) (input : SettleOrderInput) :
    (settle user now orderId input).Writes Steady := by
  refine (writes_lockOpenOrder _ _).bind fun _ => (writes_check _ _).bind fun _ =>
    (writes_query _).bind fun _ => (writes_require _ _).bind fun _ =>
    (writes_resolveDiscounts _ _ _ _ _).bind fun _ =>
    (writes_consumeOtp _ _ _ _ _ fun _ => steady_of_orders fun _ => rfl).bind fun _ =>
    (steady_recomputeTotals _ _ _).bind fun _ =>
    (writes_of_touches [] (writes_takePayments _ _ _ _) (by simp)).bind fun _ =>
    (steady_nextBillNumber _).bind fun _ => (writes_whenever ?_).bind fun _ => ?_
  · exact writes_redeemCustomerPoints _ _ _ (steady_of_orders fun _ => rfl)
  generalize settlePhone _ _ = phone
  refine (writes_whenever ?_).bind fun _ => (writes_forM (fun _ => ?_) _).bind fun _ =>
    (writes_update ?_).bind fun _ => (writes_forM (fun _ => ?_) _).bind fun _ => writes_pure _
  · exact writes_earnCustomerPoints _ _ _ _ _ (steady_of_orders fun _ => rfl)
  · exact writes_of_touches [] (writes_countCoupon _) (by simp)
  · exact steady_updateOrder fun _ h => h
  · exact writes_closeSplitParentIfDone _ (steady_updateOrder fun _ h => h)

theorem steady_cancel (user : AuthUser) (orderId : RowId) :
    (cancel user orderId).Writes Steady := by
  refine (writes_lockOpenOrder _ _).bind fun _ => (writes_liftM _).bind fun _ => writes_update ?_
  exact steady_updateOrder fun _ h => h

theorem steady_saleNumber (device : EdgeDeviceContext) (sale : EdgeSale) :
    (saleNumber device sale).Writes Steady := by
  have hdevice : (deviceNumber device sale).Writes Steady := by
    unfold deviceNumber
    split
    · exact writes_pure _
    · dsimp only
      split
      · split
        · exact writes_pure _
        · exact (writes_query _).bind fun _ => writes_pure _
      · exact writes_pure _
  unfold saleNumber
  split
  · refine hdevice.bind fun invoice => ?_
    cases invoice with
    | some i => exact writes_pure _
    | none => exact (steady_nextBillNumber _).bind fun _ => writes_pure _
  · exact writes_pure _

theorem steady_countSaleCoupon (outletId : String) (order : EdgeOrderInput) :
    (countSaleCoupon outletId order).Writes Steady := by
  unfold countSaleCoupon
  split
  · exact writes_pure _
  · exact (writes_query _).bind fun _ => (writes_forM (fun _ => writes_acquire _) _).bind fun _ =>
      (writes_query _).bind fun _ => (writes_forM (fun _ =>
        writes_of_touches [] (writes_countCoupon _) (by simp)) _).bind fun _ => writes_pure _

/-- A device's sale is stored with figures that add up. -/
theorem steady_insertSale (device : EdgeDeviceContext) (sale : EdgeSale) :
    (insertSale device sale).Writes Steady := by
  refine (writes_lockSaleTable _ _).bind fun _ =>
    Writes.bind_does (writes_liftM _) (W := fun _ totals => checkFigures sale.order = .ok totals)
      ?_ fun _ totals htotals => ?_
  · rw [does_liftM]
    exact fun totals h => mapError_eq_ok.mp h
  refine (steady_countSaleCoupon _ _).bind fun _ => (steady_saleNumber _ _).bind fun _ =>
    Writes.bind_does (writes_liftM _) (W := fun _ f => Footed f) ?_ fun _ f hf => ?_
  · rw [does_liftM]
    exact fun f h => footed_of_saleFigures sale.schema htotals h
  refine (writes_acquire _).bind fun _ => (writes_query _).bind fun _ => (writes_check _ _).bind
    fun _ => writes_draw.bind fun _ => (writes_update ?_).bind fun _ =>
    (writes_drawNumber (steady_of_orders fun _ => rfl)).bind fun _ =>
    (writes_update (steady_of_orders fun _ => rfl)).bind fun _ => (writes_liftM _).bind fun _ =>
    (writes_forM (fun _ => ?_) _).bind fun _ =>
    (writes_mapM (fun _ => (writes_liftM _).bind fun _ => writes_pure _) _).bind fun _ =>
    writes_update (steady_of_orders fun _ => rfl)
  · exact steady_insertOrder hf
  · exact (writes_acquire _).bind fun _ => (writes_query _).bind fun _ => (writes_check _ _).bind
      fun _ => writes_update (steady_of_orders fun _ => rfl)

theorem steady_billing (r : BillingRequest) : r.run.Writes Steady := by
  cases r with
  | create user menu input => exact steady_create user menu input
  | addItems user menu orderId round => exact steady_addItems user menu orderId round
  | ingestAggregatorOrder menu input =>
    exact writes_map (steady_ingestAggregatorOrder menu input)
  | ingestScanOrder menu input =>
    exact writes_map (steady_ingestScanOrder menu input)
  | applySyncedOrder menu outletId deviceId order => exact steady_applySyncedOrder _ _ _ _
  | setServiceCharge user orderId waive => exact steady_setServiceCharge user orderId waive
  | merge user targetId input => exact steady_merge user targetId input
  | transfer user orderId input => exact steady_transfer user orderId input
  | split user orderId input => exact steady_split user orderId input
  | unsplit user orderId => exact steady_unsplit user orderId
  | settle user now orderId input =>
    exact writes_map (steady_settle user now orderId input)
  | cancel user orderId => exact steady_cancel user orderId

/-- Every request keeps the figures adding up, with each of its writes. -/
theorem steady_run (r : SalesRequest) : r.run.Writes Steady := by
  cases r with
  | billing r => exact steady_billing r
  | ingestEdgeBill device sale =>
    refine (writes_query _).bind fun existing => ?_
    split
    · exact writes_pure _
    · exact steady_insertSale device sale

/-! ### Runs -/

/-- The figures of every order add up. -/
def footing : Discipline BillingDb LockKey where
  inv db _ := AllFooted db
  step _ _ _ := True
  inv_mono _ h := h

theorem safe_run (r : SalesRequest) : footing.Safe r.run :=
  wp_of_writes steady_id (fun _ _ => Steady.comp) (steady_run r) stable_true
    fun _ _ _ _ hw s _ hs _ _ => ⟨hw s hs, trivial⟩

/-- The figures of every order add up, however the requests interleave. -/
theorem footed_of_sales {w : World BillingDb LockKey Unit Empty Empty (Except BillingError Unit)}
    (h : sales.Reachable w) {o : Billing.Order} (ho : o ∈ w.db.orders) : Footed o.figures := by
  refine inv_of_serve (D := footing) safe_run (fun db n hdb o ho => ?_) h o ho
  rw [hdb.orders] at ho
  exact absurd ho (KeyedTable.notMem_empty o)

end StelloKitchens.Invoices
