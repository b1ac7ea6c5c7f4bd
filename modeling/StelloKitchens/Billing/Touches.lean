import StelloKitchens.Billing.Settle

/-!
# What the parts of a settlement touch

The parts of a settlement, and of the transactions that store closed bills, write to a few of the
billing tables each. What is proved of some tables needs to look at the parts that touch them.

## Main definitions

* `Table`, `Touches` — the tables, and writes that change some of them only.

## Main results

* `writes_takePayments`, `writes_consumeOtp`, … — what each part touches.
-/

namespace StelloKitchens.Billing

open Tx

/-- The billing tables that parts of a settlement can be told by; what goes with a table in these
parts is counted to it. -/
inductive Table
  | orders
  | outlets
  | items
  | customers
  | otps
  deriving DecidableEq

/-- A table is the same in two databases. -/
def Table.Same : Table → BillingDb → BillingDb → Prop
  | orders, s, t => t.orders = s.orders
  | outlets, s, t => t.outlets = s.outlets
  | items, s, t => t.items = s.items
  | customers, s, t =>
    t.customers = s.customers ∧ t.loyaltyTransactions = s.loyaltyTransactions
  | otps, s, t => t.otps = s.otps ∧ t.otpUses = s.otpUses

/-- Of these tables, a write changes no others than those. -/
def Touches (ts : List Table) (w : BillingDb → BillingDb) : Prop := ∀ s, ∀ t ∉ ts, t.Same s (w s)

variable {ts : List Table}

/-- The writes of a transaction are to these tables. -/
abbrev TxTouches {α : Type} (ts : List Table) (t : BillingTx α) : Prop := t.Writes (Touches ts)

/-! ### Single writes -/

theorem touches_updateOrder (h : .orders ∈ ts) (id : RowId) (f : Order → Order)
    (hf : ∀ o, (f o).id = o.id) : Touches ts fun db => db.updateOrder id f hf := by
  intro s t ht
  cases t with
  | orders => exact absurd h ht
  | _ => simp [Table.Same, BillingDb.updateOrder]

theorem touches_updateOutlet (h : .outlets ∈ ts) (id : String) (f : Outlet → Outlet)
    (hf : ∀ o, (f o).id = o.id) : Touches ts fun db => db.updateOutlet id f hf := by
  intro s t ht
  cases t with
  | outlets => exact absurd h ht
  | _ => simp [Table.Same, BillingDb.updateOutlet]

theorem touches_useOtp (h : .otps ∈ ts) (otpId : ℕ) (orderId : RowId) (now : Time) :
    Touches ts fun db => db.useOtp otpId orderId now := by
  intro s t ht
  cases t with
  | otps => exact absurd h ht
  | _ => simp [Table.Same, BillingDb.useOtp]

theorem touches_redeemPoints (h : .customers ∈ ts) (key : String × String) (points : ℕ) :
    Touches ts fun db => db.redeemPoints key points := by
  intro s t ht
  cases t with
  | customers => exact absurd h ht
  | _ => simp [Table.Same, BillingDb.redeemPoints]

theorem touches_earnPoints (h : .customers ∈ ts) (outletId phone : String) (orderId : RowId)
    (points : ℤ) (redeemed : ℕ) :
    Touches ts fun db => db.earnPoints outletId phone orderId points redeemed := by
  intro s t ht
  cases t with
  | customers => exact absurd h ht
  | _ => simp [Table.Same, BillingDb.earnPoints]

/-- What is written elsewhere touches none of these tables. -/
theorem touches_elsewhere {w : BillingDb → BillingDb} (h : ∀ s, ∀ t : Table, t.Same s (w s)) :
    Touches ts w := fun s t _ => h s t

/-! ### Parts -/

section Parts

variable {V : (BillingDb → BillingDb) → Prop}

theorem writes_lockOpenOrder (user : AuthUser) (orderId : RowId) :
    (lockOpenOrder user orderId).Writes V :=
  (writes_acquire _).bind fun _ => (writes_query _).bind fun _ => (writes_require _ _).bind fun _ =>
    (writes_liftM _).bind fun _ => (writes_check _ _).bind fun _ => writes_pure _

theorem writes_resolveCoupon (order : Order) (couponCode : Option String) (now : Time) :
    (resolveCoupon order couponCode now).Writes V := by
  unfold resolveCoupon
  cases truthy couponCode with
  | none => exact writes_pure _
  | some code =>
    exact (writes_query _).bind fun _ => (writes_check _ _).bind fun _ => writes_pure _

theorem writes_resolveDiscounts (order : Order) (input : SettlePreviewInput) (pointValue : Binary64)
    (phone : String) (now : Time) :
    (resolveDiscounts order input pointValue phone now).Writes V :=
  (writes_resolveCoupon _ _ _).bind fun _ => (writes_check _ _).bind fun _ => writes_pure _

theorem writes_billFor (orderId : RowId) (discount : Binary64) (plain : Bool) :
    (billFor orderId discount plain).Writes V :=
  (writes_query _).bind fun _ => (writes_require _ _).bind fun _ => (writes_query _).bind fun _ =>
    ((writes_query _).bind fun _ => writes_pure _).bind fun _ => writes_pure _

theorem writes_recomputeTotals (orderId : RowId) (discount : Option Binary64) (plain : Bool)
    (h : ∀ figures, V fun db => db.setFigures orderId figures) :
    (recomputeTotals orderId discount plain).Writes V :=
  (writes_query _).bind fun _ => (writes_require _ _).bind fun _ => (writes_billFor _ _ _).bind
    fun _ => (writes_liftM _).bind fun _ => (writes_update (h _)).bind fun _ => writes_pure _

theorem writes_drawNumber {outletId : String} {counter : Outlet → ℕ} {advance : Outlet → Outlet}
    {hadvance : ∀ o, (advance o).id = o.id}
    (h : V fun db => db.updateOutlet outletId advance hadvance) :
    (drawNumber outletId counter advance hadvance).Writes V :=
  (writes_acquire _).bind fun _ => (writes_query _).bind fun _ => (writes_require _ _).bind fun _ =>
    (writes_update h).bind fun _ => writes_pure _

theorem writes_consumeOtp (outletId phone : String) (input : SettleOrderInput) (now : Time)
    (orderId : RowId) (h : ∀ otpId, V fun db => db.useOtp otpId orderId now) :
    (consumeOtp outletId phone input now orderId).Writes V := by
  unfold consumeOtp
  split
  · rw [map_eq_pure_bind]
    refine Writes.bind ?_ fun _ => writes_pure _
    refine (writes_require _ _).bind fun code => (writes_query _).bind fun _ =>
      (writes_require _ _).bind fun _ => ?_
    generalize trim code = given
    exact (writes_check _ _).bind fun _ => (writes_acquire _).bind
      fun _ => (writes_update (h _)).bind fun _ => writes_pure _
  · exact writes_pure _

theorem writes_redeemGiftCard (now : Time) (code : String) (amount : Binary64) :
    TxTouches ts (redeemGiftCard now code amount) :=
  (writes_acquire _).bind fun _ => (writes_query _).bind fun _ => (writes_require _ _).bind fun _ =>
    (writes_check _ _).bind fun _ => (writes_check _ _).bind fun _ => (writes_check _ _).bind fun _ =>
    (writes_liftM _).bind fun _ => writes_update <| touches_elsewhere fun _ t => by
      cases t <;> simp [Table.Same]

theorem writes_takePayments (now : Time) (orderId : RowId) (total : Binary64)
    (payments : List SettlePayment) : TxTouches ts (takePayments now orderId total payments) :=
  (writes_check _ _).bind fun _ =>
    (writes_foldlM (fun _ _ => writes_redeemGiftCard _ _ _) _ _).bind fun _ =>
    (writes_mapM (fun _ => (writes_liftM _).bind fun _ => writes_pure _) _).bind fun _ =>
    writes_update <| touches_elsewhere fun _ t => by cases t <;> simp [Table.Same]

theorem writes_redeemCustomerPoints (outletId phone : String) (points : ℕ)
    (h : V fun db => db.redeemPoints (outletId, phone) points) :
    (redeemCustomerPoints outletId phone points).Writes V :=
  (writes_updateWhere h).bind fun _ => writes_check _ _

theorem writes_earnCustomerPoints (outletId phone : String) (orderId : RowId) (points : ℤ)
    (redeemed : ℕ) (h : V fun db => db.earnPoints outletId phone orderId points redeemed) :
    (earnCustomerPoints outletId phone orderId points redeemed).Writes V :=
  (writes_acquire _).bind fun _ => writes_update h

theorem writes_countCoupon (couponId : String) : TxTouches ts (countCoupon couponId) :=
  (writes_acquire _).bind fun _ => writes_update <| touches_elsewhere fun _ t => by
    cases t <;> simp [Table.Same]

theorem writes_closeSplitParentIfDone (parentId : RowId)
    (h : V fun db => db.updateOrder parentId (fun o => { o with status := .split }) fun _ => rfl) :
    (closeSplitParentIfDone parentId).Writes V := by
  refine (writes_acquire _).bind fun _ => (writes_query _).bind fun _ => ?_
  split
  · exact writes_pure _
  refine (writes_query _).bind fun _ => (writes_require _ _).bind fun _ => ?_
  split
  · exact writes_pure _
  · exact writes_update h

end Parts

end StelloKitchens.Billing
