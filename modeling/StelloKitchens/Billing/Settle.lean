import StelloKitchens.Billing.Orders

/-!
# Closing bills

The transactions of the order service that close bills. A settlement works out the discounts,
computes the figures, takes the payments, draws the bill number, redeems and earns points, counts
the coupon, and closes the bill; settling a split check may close its parent as well. A preview
computes what a settlement would charge, and writes nothing.

## Main definitions

* `SettleOrderInput` — what the settle schema accepts.
* `resolveDiscounts` — coupon, points, manual discount and the share of a parent's discount.
* `settle`, `preview`, `cancel`, `closeSplitParentIfDone`.
-/

namespace StelloKitchens.Billing

open Checked Tx

/-! ### Requests -/

/-- What the preview schema accepts. -/
structure SettlePreviewInput where
  discountAmount : Option Binary64
  discount_nonneg : ∀ d ∈ discountAmount, 0 ≤ d
  couponCode : Option String
  redeemPoints : ℕ
  customerPhone : Option String

/-- A payment that the settle schema accepts. -/
structure SettlePayment where
  mode : SettleMode
  amount : Binary64
  positive : 0 < amount
  cents : IsMultipleOfCent amount
  giftCardCode : Option String
  hasCode : mode = .giftCard → (truthy giftCardCode).isSome

/-- What the settle schema accepts: at least one payment. -/
structure SettleOrderInput extends SettlePreviewInput where
  payments : List SettlePayment
  payments_ne : payments ≠ []
  redeemOtp : Option String
  customerName : Option String

theorem noDiscount_nonneg : ∀ d ∈ (none : Option Binary64), 0 ≤ d := by simp

theorem cash_hasCode : SettleMode.tender .cash = .giftCard → (truthy none).isSome := by simp

/-! ### Discounts -/

structure Discounts where
  coupon : Option (String × String)
  couponDiscount : Binary64
  redeemDiscount : Binary64
  totalDiscount : Binary64

/-- The discount of a coupon, and the coupon. -/
def resolveCoupon (order : Order) (couponCode : Option String) (now : Time) :
    BillingTx (Option (String × String) × Binary64) :=
  match truthy couponCode with
  | none => return (none, 0)
  | some code => do
    let coupon ← query fun db : BillingDb =>
      db.coupons.rows.find? fun c => c.outletId = order.outletId ∧ c.code = code.toUpper
    let result := evaluateCoupon (coupon.map (·.rule)) order.figures.subtotal.toNumber now
    check result.valid (.badRequest result.message)
    return (coupon.map fun c => (c.id, c.code), result.discount)

/-- All discounts of a settlement or a preview, together at most the subtotal. -/
def resolveDiscounts (order : Order) (input : SettlePreviewInput) (pointValue : Binary64)
    (phone : String) (now : Time) : BillingTx Discounts := do
  let (coupon, couponDiscount) ← resolveCoupon order input.couponCode now
  check (0 < input.redeemPoints → phone ≠ "")
    (.badRequest "A customer phone is required to redeem points")
  let redeemDiscount : Binary64 :=
    if 0 < input.redeemPoints then .ofRat input.redeemPoints * pointValue else 0
  return {
    coupon
    couponDiscount
    redeemDiscount
    totalDiscount := min (order.allocatedDiscount.toNumber + input.discountAmount.getD 0 +
      couponDiscount + redeemDiscount) order.figures.subtotal.toNumber }

/-- The phone a settlement is for. -/
def settlePhone (order : Order) (input : SettlePreviewInput) : String :=
  trim ((input.customerPhone.or order.customerPhone).getD "")

/-- What settling now would charge. -/
def preview (user : AuthUser) (now : Time) (orderId : RowId) (input : SettlePreviewInput) :
    BillingTx (BillTotals × Discounts) := do
  let order ← requireOrder user orderId
  check (order.status = .opened) (.badRequest "Order is not open")
  check (order.splitCount = none)
    (.badRequest "This bill is split into checks — settle each check")
  let row ← query fun db : BillingDb => db.outlets.find? order.outletId
  let outlet ← require row .database
  let discounts ← resolveDiscounts order input outlet.loyaltyPointValue (settlePhone order input) now
  let (totals, _) ← billFor orderId discounts.totalDiscount false
  return (totals, discounts)

/-! ### Points, codes and gift cards -/

/-- The latest code of a phone that is neither used nor expired. -/
def latestOtp (db : BillingDb) (outletId phone : String) (now : Time) : Option LoyaltyOtp :=
  ((db.otps.rows.filter fun o => o.outletId = outletId ∧ o.phone = phone ∧ o.consumed = false ∧
    now < o.expiresAt).insertionSort fun a b => b.createdAt ≤ a.createdAt).head?

/-- A one-time code is used up, for a bill. -/
def BillingDb.useOtp (db : BillingDb) (otpId : ℕ) (orderId : RowId) (now : Time) : BillingDb :=
  { db with
    otps := db.otps.modify (fun o => o.id = otpId) (fun o => { o with consumed := true })
      fun _ => rfl
    otpUses := db.otpUses ++ [⟨otpId, orderId, now⟩] }

/-- Check the one-time code for a redemption and use it up. -/
def verifyAndConsume (outletId phone : String) (code : Option String) (now : Time)
    (orderId : RowId) : BillingTx ℕ := do
  let code ← require (truthy code) (.badRequest "An OTP is required to redeem points")
  let latest ← query fun db : BillingDb => latestOtp db outletId phone now
  let otp ← require latest (.badRequest "No valid OTP — request a new one")
  check (otp.code = trim code) (.badRequest "Incorrect OTP")
  acquire (.otp otp.id)
  update fun db => db.useOtp otp.id orderId now
  return otp.id

/-- Use up the one-time code of a settlement that redeems points. -/
def consumeOtp (outletId phone : String) (input : SettleOrderInput) (now : Time)
    (orderId : RowId) : BillingTx (Option ℕ) :=
  if 0 < input.redeemPoints then
    some <$> verifyAndConsume outletId phone input.redeemOtp now orderId
  else return none

/-- A gift card code without blanks and dashes, in capitals. -/
def normaliseGiftCode (code : String) : String :=
  String.ofList ((code.toUpper.toList).filter fun c => !c.isWhitespace && c ≠ '-')

/-- Take an amount in paise off a gift card. -/
def redeemGiftCard (now : Time) (code : String) (amount : Binary64) : BillingTx Unit := do
  acquire (.giftCard code)
  let row ← query fun db : BillingDb => db.giftCards.find? code
  let card ← require row (.notFound ("Gift card " ++ code ++ " not found"))
  check card.active (.badRequest ("Gift card " ++ code ++ " is void"))
  check (card.expiresAt.all (now < ·)) (.badRequest ("Gift card " ++ code ++ " has expired"))
  let balance := toPaise card.balance.toNumber
  check (amount ≤ balance) (.badRequest ("Gift card " ++ code ++ " balance is too low"))
  let after ← store (fromPaise (balance - amount))
  update fun db => { db with
    giftCards := db.giftCards.modify (fun c => c.code = code)
      (fun c => { c with balance := after }) fun _ => rfl }

/-- Take what each card pays off it, card by card in the order of the codes. -/
def redeemGiftCards (now : Time) (payments : List SettlePayment) : BillingTx Unit :=
  let cards := (payments.filter fun p => p.mode = .giftCard).map fun p =>
    (normaliseGiftCode (p.giftCardCode.getD ""), toPaise p.amount)
  let codes := (cards.map (·.1)).dedup.insertionSort (· ≤ ·)
  codes.foldlM (fun _ code => redeemGiftCard now code
    ((cards.filter fun c => c.1 = code).foldl (fun s c => s + c.2) 0)) ()

/-- Take points off a customer. -/
def BillingDb.redeemPoints (db : BillingDb) (key : String × String) (points : ℕ) : BillingDb :=
  { db with
    customers := db.customers.modify (fun c => c.key = key)
      (fun c => { c with loyaltyPoints := c.loyaltyPoints - points }) fun _ => rfl }

/-- Take points off a customer who holds enough. -/
def redeemCustomerPoints (outletId phone : String) (points : ℕ) : BillingTx Unit := do
  let redeemed ← updateWhere (.customer outletId phone)
    (fun db : BillingDb => (db.customers.find? (outletId, phone)).any fun c =>
      (points : ℤ) ≤ c.loyaltyPoints)
    fun db => db.redeemPoints (outletId, phone) points
  check (redeemed = true) (.badRequest "Customer does not have enough points to redeem")

/-- The entries of a settlement in the ledger of a customer's points. -/
def loyaltyRows (outletId phone : String) (orderId : RowId) (earned : ℤ) (redeemed : ℕ) :
    List LoyaltyTransaction :=
  (if 0 < earned then [⟨outletId, phone, .earn, earned, some orderId⟩] else []) ++
    if 0 < redeemed then [⟨outletId, phone, .redeem, -redeemed, some orderId⟩] else []

/-- Points for a customer, who is entered if new, and the entries in the ledger. -/
def BillingDb.earnPoints (db : BillingDb) (outletId phone : String) (orderId : RowId) (points : ℤ)
    (redeemed : ℕ) : BillingDb :=
  { db with
    customers := db.customers.upsert ⟨outletId, phone, points⟩
      (fun c => { c with loyaltyPoints := c.loyaltyPoints + points }) fun _ h => h
    loyaltyTransactions :=
      db.loyaltyTransactions ++ loyaltyRows outletId phone orderId points redeemed }

/-- Give a customer points, who is entered if new, and enter in the ledger what was earned and
redeemed. -/
def earnCustomerPoints (outletId phone : String) (orderId : RowId) (points : ℤ) (redeemed : ℕ) :
    BillingTx Unit := do
  acquire (.customer outletId phone)
  update fun db => db.earnPoints outletId phone orderId points redeemed

/-! ### Settling -/

/-- Count one more use of a coupon. -/
def countCoupon (couponId : String) : BillingTx Unit := do
  acquire (.coupon couponId)
  update fun db => { db with
    coupons := db.coupons.modify (fun c => c.id = couponId)
      (fun c => { c with rule := { c.rule with usedCount := c.rule.usedCount + 1 } }) fun _ => rfl }

/-- Close a split bill once none of its checks is open. -/
def closeSplitParentIfDone (parentId : RowId) : BillingTx Unit := do
  acquire (.order parentId)
  let openChecks ← query fun db : BillingDb =>
    ((db.checksOf parentId).filter fun o => o.status = .opened).length
  if 0 < openChecks then return ()
  else do
    let row ← query fun db : BillingDb => db.orders.find? parentId
    let parent ← require row .database
    if parent.status ≠ .opened then return ()
    else update fun db =>
      db.updateOrder parentId (fun o => { o with status := .split }) fun _ => rfl

/-- What the settlement writes to the bill. -/
def BillingDb.closeBill (db : BillingDb) (orderId : RowId) (billNumber : String)
    (name : Option String) (phone : String) (couponCode : Option String) : BillingDb :=
  db.updateOrder orderId (fun o => { o with
    status := .settled
    billNumber := some billNumber
    customerName := name.or o.customerName
    customerPhone := (truthy (some phone)).or o.customerPhone
    couponCode := couponCode }) fun _ => rfl

/-- Take the payments of a settlement, which have to match the total. -/
def takePayments (now : Time) (orderId : RowId) (total : Binary64) (payments : List SettlePayment) :
    BillingTx Unit := do
  let paid := fromPaise (payments.foldl (fun s p => s + toPaise p.amount) 0)
  check (toPaise paid = toPaise total) (.badRequest ("Payments (" ++ toFixed2 paid ++
    ") must equal order total (" ++ toFixed2 total ++ ")"))
  redeemGiftCards now payments
  let rows ← payments.mapM fun p =>
    return (⟨orderId, p.mode, ← store p.amount⟩ : OrderPayment)
  update fun db => { db with payments := db.payments ++ rows }

/-- Settle a bill; the one-time code that was used. -/
def settle (user : AuthUser) (now : Time) (orderId : RowId) (input : SettleOrderInput) :
    BillingTx (Option ℕ) := do
  let order ← lockOpenOrder user orderId
  check (order.splitCount = none)
    (.badRequest "This bill is split into checks — settle each check")
  let row ← query fun db : BillingDb => db.outlets.find? order.outletId
  let outlet ← require row .database
  let phone := settlePhone order input.toSettlePreviewInput
  let discounts ← resolveDiscounts order input.toSettlePreviewInput outlet.loyaltyPointValue phone now
  let otpId ← consumeOtp order.outletId phone input now orderId
  let figures ← recomputeTotals orderId (some discounts.totalDiscount) false
  let total := figures.total.toNumber
  takePayments now orderId total input.payments
  let number ← nextBillNumber order.outletId
  whenever (0 < input.redeemPoints)
    (redeemCustomerPoints order.outletId phone input.redeemPoints)
  whenever (phone ≠ "")
    (earnCustomerPoints order.outletId phone orderId
      ⌊(total * outlet.loyaltyEarnRate).nearestInt.val⌋ input.redeemPoints)
  discounts.coupon.forM fun coupon => countCoupon coupon.1
  update fun db => db.closeBill orderId ("B-" ++ toString number)
    (input.customerName.or order.customerName) phone (discounts.coupon.map (·.2))
  order.parentOrderId.forM closeSplitParentIfDone
  return otpId

/-- Cancel a bill. -/
def cancel (user : AuthUser) (orderId : RowId) : BillingTx Unit := do
  let order ← lockOpenOrder user orderId
  assertNotSplit order "void it"
  update fun db =>
    db.updateOrder orderId (fun o => { o with status := .cancelled }) fun _ => rfl

end StelloKitchens.Billing
